import Syncle.Verify.SecondPass

/-!
# Reading a table while rows are deleted from it

What one page does to the rows still to be read (`unread_page`). A read that goes on after the
last row it saw, or whose deletes only mark, is not disturbed: the rows that were left are the
rows that are left. A read by OFFSET is disturbed by rows that go: as many as went since the page
was asked for slide in front of the next offset, and are passed over.
-/

namespace Syncle.Verify

open Syncle.Lib

variable {A V O : Type*} [LinearOrder A] [LinearOrder O]

namespace Setup

/-- Read by OFFSET, from a table that a delete makes shorter. -/
def slides (S : Setup A V O) : Bool := !S.ownOrder && decide (S.onDelete = .delete)

/-- The rows still to be read. -/
def unread (S : Setup A V O) (x : Reading A V O) : List (TargetRow A V O) :=
  if S.ownOrder then (inOrder TargetRow.place x.run.target).filter (behind TargetRow.place x.last)
  else (inOrder TargetRow.key x.run.target).drop x.offset

variable {S : Setup A V O} {source : List (Expected A V)} {remove : Bool}
  {target table passed rest page rows : List (TargetRow A V O)} {keys settled : List (Key A)}
  {x : Reading A V O}

theorem readPage_eq : S.readPage x = Page.of S.readSize (S.unread x) := by
  unfold readPage unread
  split <;> rfl

omit [LinearOrder A] [LinearOrder O] in
theorem readSize_pos : 0 < S.readSize := by
  have := S.targetMaxRows_pos
  unfold readSize
  omega

/-! ## Deletes and the order of the read -/

omit [LinearOrder O] in
theorem without_of_disjoint (h : ∀ r ∈ target, r.key ∉ keys) :
    S.without remove target keys = target := by
  unfold without
  split
  case isFalse => rfl
  case isTrue =>
    cases S.onDelete with
    | ignore => rfl
    | soft =>
      refine (List.map_congr_left fun r hr => ?_).trans (List.map_id target)
      exact if_neg (h r hr)
    | delete => exact List.filter_eq_self.mpr fun r hr => by simp [h r hr]

omit [LinearOrder O] in
theorem places_without (h : (target.map (·.place)).Nodup) :
    ((S.without remove target keys).map (·.place)).Nodup := by
  unfold without
  split
  case isFalse => exact h
  case isTrue =>
    cases S.onDelete with
    | ignore => exact h
    | delete => exact h.sublist (List.filter_sublist.map _)
    | soft =>
      simp only
      rw [List.map_map]
      have same : target.map ((·.place) ∘ fun r =>
          if r.key ∈ keys then { r with marked := true } else r) = target.map (·.place) := by
        refine List.map_congr_left fun r _ => ?_
        by_cases marked : r.key ∈ keys <;> simp [marked]
      rw [same]
      exact h

theorem inOrder_place_without (h : (target.map (·.place)).Nodup) :
    inOrder TargetRow.place (S.without remove target keys) =
      S.without remove (inOrder TargetRow.place target) keys := by
  unfold without
  split
  case isFalse => rfl
  case isTrue =>
    cases S.onDelete with
    | ignore => rfl
    | delete => exact inOrder_filter h _
    | soft =>
      refine inOrder_map _ fun r => ?_
      by_cases marked : r.key ∈ keys <;> simp [marked]

omit [LinearOrder O] in
/-- A delete that removes rows keeps the order of the keys if they are distinct, any other keeps it
as it is. -/
theorem inOrder_key_without
    (h : remove = true → S.onDelete = .delete → (target.map (·.key)).Nodup) :
    inOrder TargetRow.key (S.without remove target keys) =
      S.without remove (inOrder TargetRow.key target) keys := by
  unfold without
  split
  case isFalse => rfl
  case isTrue removing =>
    cases deletes : S.onDelete with
    | ignore => rfl
    | delete => exact inOrder_filter (h removing deletes) _
    | soft =>
      refine inOrder_map _ fun r => ?_
      by_cases marked : r.key ∈ keys <;> simp [marked]

theorem without_filter_behind (place : Option O) :
    (S.without remove target keys).filter (behind TargetRow.place place) =
      S.without remove (target.filter (behind TargetRow.place place)) keys := by
  unfold without
  split
  case isFalse => rfl
  case isTrue =>
    cases S.onDelete with
    | ignore => rfl
    | delete => exact List.filter_comm _ _ _
    | soft =>
      simp only
      rw [List.filter_map]
      refine congrArg _ (List.filter_congr fun r _ => ?_)
      by_cases marked : r.key ∈ keys <;> simp [marked, behind]

omit [LinearOrder O] in
theorem without_drop (kept : remove = true → S.onDelete ≠ .delete) (n : Nat) :
    (S.without remove target keys).drop n = S.without remove (target.drop n) keys := by
  unfold without
  split
  case isFalse => rfl
  case isTrue removing =>
    cases deletes : S.onDelete with
    | ignore => rfl
    | delete => exact absurd deletes (kept removing)
    | soft => exact List.map_drop.symm

/-! ## A page -/

omit [LinearOrder O] in
theorem takeAll_frame :
    (rows.foldl (S.takeTarget source remove) x).last = x.last ∧
      (rows.foldl (S.takeTarget source remove) x).offset = x.offset := by
  induction rows generalizing x with
  | nil => exact ⟨rfl, rfl⟩
  | cons r rows ih =>
    have same : (S.takeTarget source remove x r).last = x.last ∧
        (S.takeTarget source remove x r).offset = x.offset := by
      unfold takeTarget
      simp only
      split <;> exact ⟨rfl, rfl⟩
    rw [List.foldl_cons]
    exact ⟨ih.1.trans same.1, ih.2.trans same.2⟩

/-- The reading when a page of these rows has been taken. -/
def pageTaken (S : Setup A V O) (source : List (Expected A V)) (remove : Bool) (x : Reading A V O)
    (page : List (TargetRow A V O)) : Reading A V O :=
  page.foldl (S.takeTarget source remove)
    { x with
      last := (page.getLast?.map (·.place)).or x.last
      offset := x.offset + page.length }

omit [LinearOrder A] [LinearOrder O] in
/-- The reader's loop ends with the page that reaches the end of the rows. -/
theorem stops_iff : ((Page.of S.readSize rest).hasMore = false ∨
    (Page.of S.readSize rest).rows = []) ↔ rest.drop S.readSize = [] := by
  have pos := S.readSize_pos
  unfold Page.of
  rw [decide_eq_false_iff_not, List.drop_eq_nil_iff, List.take_eq_nil_iff]
  constructor
  · rintro (short | zero | rfl)
    · omega
    · omega
    · exact Nat.zero_le _
  · intro short
    exact Or.inl (by omega)

theorem readTarget_succ {pages : Nat} (h : S.unread x = rest) :
    S.readTarget source remove (pages + 1) x =
      if rest.drop S.readSize = [] then S.pageTaken source remove x (rest.take S.readSize)
      else
        S.readTarget source remove pages (S.pageTaken source remove x (rest.take S.readSize)) := by
  have unfolded : S.readTarget source remove (pages + 1) x =
      if (S.readPage x).hasMore = false ∨ (S.readPage x).rows = [] then
        S.pageTaken source remove x (S.readPage x).rows
      else S.readTarget source remove pages (S.pageTaken source remove x (S.readPage x).rows) := rfl
  rw [unfolded, readPage_eq, h]
  by_cases last : rest.drop S.readSize = []
  · rw [if_pos (stops_iff.mpr last), if_pos last]
    rfl
  · rw [if_neg fun h => last (stops_iff.mp h), if_neg last]
    rfl

/-- Between two pages: what has passed, what is settled, what is still to be read. -/
structure At (S : Setup A V O) (source : List (Expected A V)) (remove : Bool)
    (table passed rest : List (TargetRow A V O)) (settled : List (Key A)) (x : Reading A V O) :
    Prop where
  perm : (passed ++ rest).Perm table
  scan : Scan S source remove table passed settled x
  unread : S.unread x = rest

section Static

variable (distinct : (source.map (·.key)).Nodup) (once : KeysOnce TargetRow.key table)
  (named : ∀ r ∈ table, S.isMarked r = false → r.key.usable = true)
  (places : S.ownOrder = true → (table.map (·.place)).Nodup)

omit [LinearOrder O] in
include once named in
/-- No row to come has the key of an extra that has passed. -/
theorem ne_of_passed (perm : (passed ++ rest).Perm table) {k : Key A}
    (hk : k ∈ S.extras source passed) {r : TargetRow A V O} (hr : r ∈ rest) : r.key ≠ k := by
  have all : (((passed ++ rest).map (·.key)).filter Key.usable).Nodup :=
    ((perm.map _).filter _).nodup_iff.mpr once
  rw [List.map_append, List.filter_append] at all
  intro same
  obtain ⟨y, hy, extra, named'⟩ := mem_extras.mp hk
  have usable : k.usable = true :=
    usable_of_mem_extras named (mem_extras.mpr ⟨y, perm.subset (List.mem_append_left _ hy), extra, named'⟩)
  refine (List.nodup_append.mp all).2.2 k ?_ k ?_ rfl
  · exact List.mem_filter.mpr ⟨List.mem_map.mpr ⟨y, hy, named'⟩, usable⟩
  · exact List.mem_filter.mpr ⟨List.mem_map.mpr ⟨r, hr, same⟩, usable⟩

/-- How far the rows slide when these keys go. -/
def slide (S : Setup A V O) (remove : Bool) (gone : Nat) : Nat :=
  if S.slides && remove then gone else 0

omit [LinearOrder O] in
/-- Where deletes remove rows, none is only marked, and the keys are distinct. -/
theorem keys_nodup (deletes : S.onDelete = .delete) (once : KeysOnce TargetRow.key table)
    (named : ∀ r ∈ table, S.isMarked r = false → r.key.usable = true) :
    (table.map (·.key)).Nodup := by
  have unmarked : ∀ r : TargetRow A V O, S.isMarked r = false := by
    intro r
    simp [isMarked, deletes]
  have all : (table.map (·.key)).filter Key.usable = table.map (·.key) := by
    refine List.filter_eq_self.mpr fun k hk => ?_
    obtain ⟨r, hr, rfl⟩ := List.mem_map.mp hk
    exact named r hr (unmarked r)
  rw [← all]
  exact once

variable {settled' gone : List (Key A)} {x' : Reading A V O}

/-- A page has been taken: what went while it was, and where the reading stands. -/
structure Taken (S : Setup A V O) (remove : Bool) (x : Reading A V O) (page : List (TargetRow A V O))
    (gone : List (Key A)) (x' : Reading A V O) : Prop where
  table : x'.run.target = S.without remove x.run.target gone
  last : x'.last = (page.getLast?.map (·.place)).or x.last
  offset : x'.offset = x.offset + page.length

/-- A read of its own order goes on behind the last row it saw. -/
theorem unread_own (own : S.ownOrder = true) (h : S.unread x = page ++ rest) (full : page ≠ [])
    (taken : Taken S remove x page gone x') (apart : ∀ r ∈ rest, r.key ∉ gone)
    (placed : (x.run.target.map (·.place)).Nodup) : S.unread x' = rest := by
  have unread : ∀ y : Reading A V O, S.unread y =
      (inOrder TargetRow.place y.run.target).filter (behind TargetRow.place y.last) := by
    intro y
    unfold Setup.unread
    rw [if_pos own]
  rw [unread] at h ⊢
  obtain ⟨front, final, rfl⟩ := List.eq_nil_or_concat' page |>.resolve_left full
  have last : x'.last = final.place := by
    rw [taken.last]
    simp
  -- the rows to come rank behind the last of the page, and those of the page do not
  have sorted : ((front ++ [final]) ++ rest).Pairwise fun a b => a.place < b.place := by
    have le : ((front ++ [final]) ++ rest).Pairwise fun a b => a.place ≤ b.place := by
      rw [← h]
      exact (pairwise_inOrder x.run.target).filter _
    have ne : (((front ++ [final]) ++ rest).map (·.place)).Nodup := by
      rw [← h]
      refine List.Nodup.sublist (List.filter_sublist.map _) ?_
      exact ((List.perm_insertionSort _ x.run.target).map _).nodup_iff.mpr placed
    exact (le.and (List.pairwise_map.mp ne)).imp fun both => lt_of_le_of_ne both.1 both.2
  have later : ∀ r ∈ rest, behind TargetRow.place (some final.place) r = true := by
    intro r hr
    have := (List.pairwise_append.mp sorted).2.2 final (by simp) r hr
    simpa [behind] using this
  have passed : ∀ r ∈ front ++ [final], behind TargetRow.place (some final.place) r = false := by
    intro r hr
    have within := (List.pairwise_append.mp sorted).1
    rcases List.mem_append.mp hr with early | final'
    · have := (List.pairwise_append.mp within).2.2 r early final (by simp)
      simpa [behind] using this.le
    · obtain rfl := List.mem_singleton.mp final'
      simp [behind]
  have further : ∀ r : TargetRow A V O, behind TargetRow.place (some final.place) r = true →
      behind TargetRow.place x.last r = true := by
    intro r hr
    have mem : final ∈ (inOrder TargetRow.place x.run.target).filter
        (behind TargetRow.place x.last) := by
      rw [h]
      simp
    have behindLast := List.of_mem_filter mem
    cases place : x.last with
    | none => rfl
    | some p =>
      rw [place] at behindLast
      simp only [behind, Option.all_some, decide_eq_true_eq] at behindLast hr ⊢
      exact behindLast.trans hr
  rw [taken.table, last, inOrder_place_without placed, without_filter_behind]
  have refiltered : (inOrder TargetRow.place x.run.target).filter
      (behind TargetRow.place (some final.place)) = rest := by
    have twice : (inOrder TargetRow.place x.run.target).filter
          (behind TargetRow.place (some final.place)) =
        ((inOrder TargetRow.place x.run.target).filter (behind TargetRow.place x.last)).filter
          (behind TargetRow.place (some final.place)) := by
      rw [List.filter_filter]
      refine List.filter_congr fun r _ => ?_
      by_cases hr : behind TargetRow.place (some final.place) r = true
      · rw [hr, further r hr]
        rfl
      · simp [hr]
    rw [twice, h, List.filter_append, List.filter_eq_nil_iff.mpr (by simpa using passed),
      List.filter_eq_self.mpr later]
    rfl
  rw [refiltered]
  exact without_of_disjoint apart

/-- A read by OFFSET whose deletes remove nothing finds the table as long as it was. -/
theorem unread_still (own : S.ownOrder = false)
    (kept : remove = true → S.onDelete ≠ .delete)
    (h : S.unread x = page ++ rest) (taken : Taken S remove x page gone x')
    (apart : ∀ r ∈ rest, r.key ∉ gone) : S.unread x' = rest := by
  unfold Setup.unread at *
  rw [own, if_neg Bool.false_ne_true] at *
  rw [taken.table, taken.offset,
    inOrder_key_without fun removing deletes => absurd deletes (kept removing),
    without_drop kept, ← List.drop_drop, h, List.drop_left]
  exact without_of_disjoint apart

/-- **A read by OFFSET passes over as many rows as went.** -/
theorem unread_slid (own : S.ownOrder = false) (deletes : S.onDelete = .delete)
    (h : S.unread x = page ++ rest) (more : rest ≠ []) (taken : Taken S true x page gone x')
    (apart : ∀ r ∈ rest, r.key ∉ gone) (nodup : (x.run.target.map (·.key)).Nodup)
    (goneOnce : gone.Nodup) (there : ∀ k ∈ gone, k ∈ x.run.target.map (·.key)) :
    S.unread x' = rest.drop gone.length := by
  unfold Setup.unread at *
  rw [own, if_neg Bool.false_ne_true] at *
  have ordered : inOrder TargetRow.key x.run.target =
      ((inOrder TargetRow.key x.run.target).take x.offset ++ page) ++ rest := by
    rw [List.append_assoc, ← h, List.take_append_drop]
  have reached : ((inOrder TargetRow.key x.run.target).take x.offset ++ page).length =
      x.offset + page.length := by
    have some : 0 < rest.length := List.length_pos_iff.mpr more
    have left := congrArg List.length h
    rw [List.length_drop, List.length_append] at left
    rw [List.length_append, List.length_take]
    omega
  generalize (inOrder TargetRow.key x.run.target).take x.offset ++ page = front at ordered reached
  have perm : (front ++ rest).Perm x.run.target := by
    rw [← ordered]
    exact List.perm_insertionSort _ _
  have distinct : ((front ++ rest).map (·.key)).Nodup := (perm.map _).nodup_iff.mpr nodup
  rw [List.map_append] at distinct
  have among : ∀ k ∈ gone, k ∈ front.map (·.key) := by
    intro k hk
    have mem := (perm.map (·.key)).symm.subset (there k hk)
    rw [List.map_append] at mem
    rcases List.mem_append.mp mem with front' | rest'
    · exact front'
    · obtain ⟨r, hr, rfl⟩ := List.mem_map.mp rest'
      exact absurd hk (apart r hr)
  have removed : S.without true (front ++ rest) gone = front.filter (fun r => r.key ∉ gone) ++ rest := by
    have kept : rest.filter (fun r => r.key ∉ gone) = rest :=
      List.filter_eq_self.mpr fun r hr => by simp [apart r hr]
    unfold without
    rw [if_pos rfl, deletes]
    simp only
    rw [List.filter_append, kept]
  have count : (front.filter fun r => r.key ∉ gone).length = front.length - gone.length := by
    convert length_filter_not_mem TargetRow.key (List.nodup_append.mp distinct).1 goneOnce among
  rw [taken.table, taken.offset, inOrder_key_without fun _ _ => nodup, ordered, removed, ← reached,
    List.drop_append, List.drop_eq_nil_of_le (by omega), List.nil_append]
  congr 1
  have within : gone.length ≤ front.length := by
    have := (List.subperm_of_subset goneOnce among).length_le
    rwa [List.length_map] at this
  omega

end Static

end Setup

end Syncle.Verify
