import Mathlib.Data.List.Induction
import Mathlib.Data.List.Sort
import Mathlib.Data.Nat.Basic
import Syncle.Lib.Replay

/-!
# A keyed table, read a page at a time

The rows a list of writes leaves (`rowsOf`), and the queries a paged read of them makes: the rows
in an order, those after a place in it or those from an offset on, cut off at a limit.

A page is exact about the rows it reaches over: a row after the place the page was read from is in
the page, or the page says that there is more and the row lies behind all of it
(`pageAfter_reaches`). Nothing of the kind holds of an offset when rows go away between two
pages.
-/

namespace Syncle.Lib

variable {K R O : Type*}

/-! ## The rows -/

section Rows

variable [DecidableEq K] (key : R → K)

def Write.onRows : Write K R → List R → List R
  | .upsert k r, rows => rows.filter (fun x => key x ≠ k) ++ [r]
  | .remove k, rows => rows.filter fun x => key x ≠ k
  | .clear, _ => []

/-- The rows a list of writes leaves in an empty table. -/
def rowsOf (ws : List (Write K R)) : List R := ws.foldl (fun rows w => w.onRows key rows) []

/-- Every row is put under its own key. -/
def Keyed (ws : List (Write K R)) : Prop := ∀ k r, Write.upsert k r ∈ ws → key r = k

variable {key}

omit [DecidableEq K] in
theorem Keyed.of_append {ws vs : List (Write K R)} (h : Keyed key (ws ++ vs)) : Keyed key ws :=
  fun k r hr => h k r (List.mem_append_left _ hr)

/-- What is left under a key is a row of that key. -/
theorem Keyed.key_of_replay {ws : List (Write K R)} (h : Keyed key ws) {k : K} {r : R}
    (hr : replay (fun _ => none) ws k = some r) : key r = k := by
  by_cases ht : ∃ w ∈ ws, w.touches k
  · obtain ⟨before, w, after, rfl, hw, hafter⟩ := exists_last_touching ht
    rw [replay_of_last hw hafter] at hr
    cases w with
    | upsert k' x =>
      obtain rfl : k' = k := hw
      obtain rfl : x = r := Option.some.inj hr
      exact h k' x (by simp)
    | remove k' => cases hr
    | clear => cases hr
  · rw [replay_untouched fun w hw hk => ht ⟨w, hw, hk⟩] at hr
    cases hr

/-- The table and the keyed state are the same: a row is in the table when it is what the writes
leave under its key. -/
theorem mem_rowsOf {ws : List (Write K R)} (h : Keyed key ws) {r : R} :
    r ∈ rowsOf key ws ↔ replay (fun _ => none) ws (key r) = some r := by
  induction ws using List.reverseRecOn with
  | nil => simp [rowsOf]
  | append_singleton ws w ih =>
    have unfolded : rowsOf key (ws ++ [w]) = w.onRows key (rowsOf key ws) := by
      simp [rowsOf, List.foldl_append]
    rw [unfolded, replay_snoc]
    by_cases ht : w.touches (key r)
    · rw [Write.apply_of_touches ht]
      cases w with
      | upsert k x =>
        obtain rfl : k = key r := ht
        simpa [Write.onRows, Write.image] using eq_comm
      | remove k =>
        obtain rfl : k = key r := ht
        simp [Write.onRows, Write.image]
      | clear => simp [Write.onRows, Write.image]
    · rw [Write.apply_of_not_touches ht, ← ih h.of_append]
      cases w with
      | upsert k x =>
        have hx : key x = k := h k x (by simp)
        have hk : key r ≠ k := fun e => ht e.symm
        have hne : r ≠ x := by
          rintro rfl
          exact hk hx
        simp [Write.onRows, hk, hne]
      | remove k =>
        have hk : key r ≠ k := fun e => ht e.symm
        simp [Write.onRows, hk]
      | clear => exact absurd trivial ht

end Rows

/-! ## The pages -/

structure Page (R : Type*) where
  rows : List R
  hasMore : Bool
  deriving DecidableEq

/-- One row more than the limit is asked for: that is how a page knows that there is another. -/
def Page.of (limit : Nat) (rows : List R) : Page R :=
  { rows := rows.take limit, hasMore := limit < rows.length }

variable [LinearOrder O] (rank : R → O)

/-- The rows in the order of the read. -/
def inOrder (rows : List R) : List R := rows.insertionSort fun a b => rank a ≤ rank b

/-- Is the row behind the place? A read from the top has no place. -/
def behind (place : Option O) (r : R) : Bool := place.all fun p => p < rank r

/-- A page of the rows that meet `f`. -/
def pageOf (f : R → Bool) (limit : Nat) (rows : List R) : Page R :=
  Page.of limit ((inOrder rank rows).filter f)

def pageAfter (place : Option O) (limit : Nat) (rows : List R) : Page R :=
  Page.of limit ((inOrder rank rows).filter (behind rank place))

def pageFrom (offset limit : Nat) (rows : List R) : Page R :=
  Page.of limit ((inOrder rank rows).drop offset)

variable {rank} {place : Option O} {f : R → Bool} {limit : Nat} {rows : List R}

@[simp] theorem mem_inOrder {r : R} : r ∈ inOrder rank rows ↔ r ∈ rows :=
  List.mem_insertionSort _

theorem pairwise_inOrder (rows : List R) :
    (inOrder rank rows).Pairwise fun a b => rank a ≤ rank b := by
  have total : Std.Total fun a b : R => rank a ≤ rank b := ⟨fun a b => le_total (rank a) (rank b)⟩
  have trans : IsTrans R fun a b => rank a ≤ rank b := ⟨fun _ _ _ => le_trans⟩
  exact List.pairwise_insertionSort _ rows

/-- Where no two rows rank the same, the rows have one order. -/
theorem inOrder_eq {l : List R} (distinct : (rows.map rank).Nodup) (perm : l.Perm rows)
    (sorted : l.Pairwise fun a b => rank a ≤ rank b) : inOrder rank rows = l := by
  refine List.Perm.eq_of_pairwise ?_ (pairwise_inOrder rows) sorted
    ((List.perm_insertionSort _ rows).trans perm.symm)
  intro a b ha hb le ge
  exact List.inj_on_of_nodup_map distinct (mem_inOrder.mp ha) (perm.subset hb) (le_antisymm le ge)

theorem inOrder_filter (distinct : (rows.map rank).Nodup) (p : R → Bool) :
    inOrder rank (rows.filter p) = (inOrder rank rows).filter p :=
  inOrder_eq (distinct.sublist (List.filter_sublist.map rank))
    ((List.perm_insertionSort _ rows).filter p) ((pairwise_inOrder rows).filter _)

theorem inOrder_map (f : R → R) (same : ∀ r, rank (f r) = rank r) :
    inOrder rank (rows.map f) = (inOrder rank rows).map f :=
  (List.map_insertionSort _ _ f rows fun a _ b _ => by rw [same, same]).symm

theorem mem_pageOf {r : R} (h : r ∈ (pageOf rank f limit rows).rows) : r ∈ rows ∧ f r = true := by
  have := List.mem_filter.mp (List.mem_of_mem_take h)
  exact ⟨mem_inOrder.mp this.1, this.2⟩

theorem pageOf_sorted :
    (pageOf rank f limit rows).rows.Pairwise fun a b => rank a ≤ rank b :=
  ((pairwise_inOrder rows).filter _).sublist (List.take_sublist _ _)

/-- **What a page leaves out lies behind it.** -/
theorem pageOf_reaches {r : R} (hr : r ∈ rows) (hf : f r = true) :
    r ∈ (pageOf rank f limit rows).rows ∨
      (pageOf rank f limit rows).hasMore = true ∧
        ∀ x ∈ (pageOf rank f limit rows).rows, rank x ≤ rank r := by
  have hmem : r ∈ (inOrder rank rows).filter f := List.mem_filter.mpr ⟨mem_inOrder.mpr hr, hf⟩
  have sorted : ((inOrder rank rows).filter f).Pairwise
      fun a b => rank a ≤ rank b := (pairwise_inOrder rows).filter _
  unfold pageOf Page.of
  generalize (inOrder rank rows).filter f = all at hmem sorted
  rw [← List.take_append_drop limit all] at hmem sorted
  rcases List.mem_append.mp hmem with first | rest
  · exact Or.inl first
  · have longer : limit < all.length := by
      by_contra short
      rw [List.drop_eq_nil_of_le (Nat.le_of_not_lt short)] at rest
      cases rest
    exact Or.inr ⟨decide_eq_true longer,
      fun x hx => (List.pairwise_append.mp sorted).2.2 x hx r rest⟩

theorem pageOf_ne_nil (hpos : 0 < limit) (h : (pageOf rank f limit rows).hasMore = true) :
    (pageOf rank f limit rows).rows ≠ [] := by
  have longer : limit < ((inOrder rank rows).filter f).length := of_decide_eq_true h
  intro empty
  have := congrArg List.length empty
  simp only [pageOf, Page.of, List.length_take, List.length_nil] at this
  omega

/-! ## Reading to the end -/

variable (rank limit rows)

/-- Page after page, each behind the last row of the one before. -/
def readAfter : Nat → Option O → List R
  | 0, _ => []
  | pages + 1, place =>
    let page := pageAfter rank place limit rows
    page.rows ++
      if page.hasMore && !page.rows.isEmpty then readAfter pages (page.rows.getLast?.map rank)
      else []

/-- Page after page, by OFFSET. -/
def readFrom : Nat → Nat → List R
  | 0, _ => []
  | pages + 1, offset =>
    let page := pageFrom rank offset limit rows
    page.rows ++
      if page.hasMore && !page.rows.isEmpty then readFrom pages (offset + page.rows.length) else []

variable {rank limit rows}

/-- Behind the last row of a page comes what the page left out. -/
theorem filter_behind_last (distinct : (rows.map rank).Nodup) {l' : List R} {l : R}
    (last : ((inOrder rank rows).filter (behind rank place)).take limit = l' ++ [l]) :
    (inOrder rank rows).filter (behind rank (some (rank l))) =
      ((inOrder rank rows).filter (behind rank place)).drop limit := by
  generalize found : (inOrder rank rows).filter (behind rank place) = all at last ⊢
  have sorted : all.Pairwise fun a b => rank a < rank b := by
    have le : all.Pairwise fun a b => rank a ≤ rank b := found ▸ (pairwise_inOrder rows).filter _
    have ne : all.Pairwise fun a b => rank a ≠ rank b := by
      have nodup : (((inOrder rank rows).filter (behind rank place)).map rank).Nodup :=
        ((List.perm_insertionSort _ rows).map rank).nodup_iff.mpr distinct |>.sublist
          (List.filter_sublist.map rank)
      rw [found] at nodup
      exact List.pairwise_map.mp nodup
    exact (le.and ne).imp fun h => lt_of_le_of_ne h.1 h.2
  have inside : l ∈ all := List.mem_of_mem_take (last ▸ List.mem_append_right l' List.mem_cons_self)
  have further : ∀ r, behind rank (some (rank l)) r = true → behind rank place r = true := by
    intro r hr
    have after : behind rank place l = true := (List.mem_filter.mp (found ▸ inside)).2
    cases place with
    | none => rfl
    | some p =>
      simp only [behind, Option.all_some, decide_eq_true_eq] at hr after ⊢
      exact after.trans hr
  have whole : (inOrder rank rows).filter (behind rank (some (rank l))) =
      all.filter (behind rank (some (rank l))) := by
    rw [← found, List.filter_filter]
    refine List.filter_congr fun r _ => ?_
    cases here : behind rank (some (rank l)) r with
    | false => rfl
    | true => rw [further r here, Bool.true_and]
  rw [← List.take_append_drop limit all] at sorted
  obtain ⟨front, -, apart⟩ := List.pairwise_append.mp sorted
  rw [whole]
  nth_rewrite 1 [← List.take_append_drop limit all]
  rw [List.filter_append]
  have none : (all.take limit).filter (behind rank (some (rank l))) = [] := by
    refine List.filter_eq_nil_iff.mpr fun r hr => ?_
    simp only [behind, Option.all_some, decide_eq_true_eq, not_lt]
    rw [last] at hr front
    rcases List.mem_append.mp hr with before | is
    · exact ((List.pairwise_append.mp front).2.2 r before l List.mem_cons_self).le
    · rw [List.mem_singleton.mp is]
  have rest : (all.drop limit).filter (behind rank (some (rank l))) = all.drop limit := by
    refine List.filter_eq_self.mpr fun r hr => ?_
    simp only [behind, Option.all_some, decide_eq_true_eq]
    exact apart l (last ▸ List.mem_append_right l' List.mem_cons_self) r hr
  rw [none, rest, List.nil_append]

/-- A page after which the reading stops has all that was left. -/
theorem Page.rows_of_stops (pos : 0 < limit) {all : List R}
    (stops : ¬ (decide (limit < all.length) && !(all.take limit).isEmpty) = true) :
    all.take limit = all := by
  refine List.take_of_length_le ?_
  by_contra longer
  have some : all.take limit ≠ [] := by
    intro none
    rcases List.take_eq_nil_iff.mp none with zero | empty
    · omega
    · rw [empty] at longer
      exact longer (Nat.zero_le _)
  refine stops ((Bool.and_eq_true _ _).mpr ⟨decide_eq_true (Nat.lt_of_not_le longer), ?_⟩)
  rw [List.isEmpty_eq_false_iff.mpr some]
  rfl

/-- **Read by a unique key, an unchanged table is read once, in its order.** -/
theorem readAfter_eq (pos : 0 < limit) (distinct : (rows.map rank).Nodup) {pages : Nat}
    (enough : ((inOrder rank rows).filter (behind rank place)).length < pages) :
    readAfter rank limit rows pages place = (inOrder rank rows).filter (behind rank place) := by
  induction pages generalizing place with
  | zero => exact absurd enough (Nat.not_lt_zero _)
  | succ pages ih =>
    unfold readAfter
    simp only
    have page : (pageAfter rank place limit rows).rows =
        ((inOrder rank rows).filter (behind rank place)).take limit := rfl
    have more : (pageAfter rank place limit rows).hasMore =
        decide (limit < ((inOrder rank rows).filter (behind rank place)).length) := rfl
    rw [page, more]
    split
    case isTrue continues =>
      have longer : limit < ((inOrder rank rows).filter (behind rank place)).length :=
        of_decide_eq_true ((Bool.and_eq_true _ _).mp continues).1
      obtain ⟨front, l, last⟩ : ∃ front l,
          ((inOrder rank rows).filter (behind rank place)).take limit = front ++ [l] := by
        refine (List.eq_nil_or_concat' _).resolve_left fun none => ?_
        rw [none] at continues
        exact absurd ((Bool.and_eq_true _ _).mp continues).2 (by simp)
      have next := filter_behind_last distinct last
      rw [last, List.getLast?_append_cons, List.getLast?_singleton, Option.map_some, ih, next,
        ← last, List.take_append_drop]
      rw [next, List.length_drop]
      omega
    case isFalse stops =>
      rw [List.append_nil]
      exact Page.rows_of_stops pos stops

theorem readFrom_eq (pos : 0 < limit) {pages offset : Nat}
    (enough : ((inOrder rank rows).drop offset).length < pages) :
    readFrom rank limit rows pages offset = (inOrder rank rows).drop offset := by
  induction pages generalizing offset with
  | zero => exact absurd enough (Nat.not_lt_zero _)
  | succ pages ih =>
    unfold readFrom
    simp only
    have page : (pageFrom rank offset limit rows).rows = ((inOrder rank rows).drop offset).take limit :=
      rfl
    have more : (pageFrom rank offset limit rows).hasMore =
        decide (limit < ((inOrder rank rows).drop offset).length) := rfl
    rw [page, more]
    split
    case isTrue continues =>
      have longer : limit < ((inOrder rank rows).drop offset).length :=
        of_decide_eq_true ((Bool.and_eq_true _ _).mp continues).1
      have length : (((inOrder rank rows).drop offset).take limit).length = limit := by
        rw [List.length_take]
        omega
      rw [length, ih, ← List.drop_drop, List.take_append_drop]
      rw [← List.drop_drop, List.length_drop]
      omega
    case isFalse stops =>
      rw [List.append_nil]
      exact Page.rows_of_stops pos stops

/-! ## Page after page -/

section ReadPages

variable {P R : Type*} {ε : Type*}

/-- A read asks for a page, and goes on from where the page ends as long as there is more; none when
it has not come to its end after so many pages, or a page could not be read. `call` counts the
pages asked for. -/
def readPages (ask : ℕ → P → Except ε (Page R)) (advance : P → List R → P) :
    ℕ → ℕ → P → Option (List R)
  | 0, _, _ => none
  | fuel + 1, call, p =>
    match ask call p with
    | .error _ => none
    | .ok page =>
      if page.hasMore && !page.rows.isEmpty then
        (readPages ask advance fuel (call + 1) (advance p page.rows)).map (page.rows ++ ·)
      else some page.rows

/-- **A read of rows that stay as they are** yields what is left, where `Left p l` says that `l` is
left at `p`. -/
theorem readPages_eq {ask : ℕ → P → Except ε (Page R)} {advance : P → List R → P} {limit : ℕ}
    (pos : 0 < limit) (Left : P → List R → Prop)
    (page : ∀ call p l, Left p l → ask call p = .ok (Page.of limit l))
    (goesOn : ∀ p l, Left p l → limit < l.length → Left (advance p (l.take limit)) (l.drop limit))
    {fuel call : ℕ} {p : P} {l : List R} (left : Left p l) (enough : l.length < fuel) :
    readPages ask advance fuel call p = some l := by
  induction fuel generalizing call p l with
  | zero => exact absurd enough (Nat.not_lt_zero _)
  | succ fuel ih =>
    simp only [readPages, page call p l left, Page.of]
    split
    case isTrue continues =>
      have longer : limit < l.length := of_decide_eq_true ((Bool.and_eq_true _ _).mp continues).1
      have rest : (l.drop limit).length < fuel := by
        rw [List.length_drop]
        omega
      rw [ih (goesOn p l left longer) rest, Option.map_some, List.take_append_drop]
    case isFalse stops => rw [Page.rows_of_stops pos stops]

/-- What is left of `all`: everything, or what comes after the row that the place is of. -/
inductive LeftAt (all : List R) (place : R → P) : Option P → List R → Prop
  | top : LeftAt all place none all
  | after {n : ℕ} {row : R} (at_ : all[n]? = some row) :
      LeftAt all place (some (place row)) (all.drop (n + 1))

theorem LeftAt.length_le {all l : List R} {place : R → P} {p : Option P} (h : LeftAt all place p l) :
    l.length ≤ all.length := by
  cases h with
  | top => exact le_rfl
  | after at_ => exact (List.drop_sublist _ _).length_le

/-- A read that goes on from its last row leaves what comes after it. -/
theorem LeftAt.goesOn {all l : List R} {place : R → P} {p : Option P} {limit : ℕ}
    (h : LeftAt all place p l) (pos : 0 < limit) (longer : limit < l.length) :
    LeftAt all place (((l.take limit).getLast?.map place) <|> p) (l.drop limit) := by
  obtain ⟨m, rfl⟩ : ∃ m, l = all.drop m := by
    cases h with
    | top => exact ⟨0, rfl⟩
    | after at_ => exact ⟨_, rfl⟩
  rw [List.length_drop] at longer
  obtain ⟨row, at_⟩ : ∃ row, all[m + (limit - 1)]? = some row :=
    ⟨_, List.getElem?_eq_getElem (by omega)⟩
  have last : ((all.drop m).take limit).getLast? = some row := by
    have length : ((all.drop m).take limit).length = limit := by
      rw [List.length_take, List.length_drop]
      omega
    rw [List.getLast?_eq_getElem?, length, List.getElem?_take_of_lt (by omega),
      List.getElem?_drop, at_]
  have rest : (all.drop m).drop limit = all.drop (m + (limit - 1) + 1) := by
    rw [List.drop_drop]
    congr 1
    omega
  rw [last, rest]
  exact .after at_

end ReadPages

end Syncle.Lib
