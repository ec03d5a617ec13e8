import Syncle.Verify.Reads

/-!
# When the second pass misses nothing

A page at a time: the second pass settles all the extras of the table (`At.run`) if its reading is
`clear`, that is, if no extra is among the rows that slide past it; and an extra that slid past is
there to the end (`Skipped.readTarget`).

Whether the reading is clear is told from the rows to come alone (`clearFrom`): how many are read at
a time, how many of these are extras, and when there are enough of them to be settled. Nothing of the
values in the rows goes into it, nor what the two tables answer.

The argument has two halves, and the same step for both. `At.nextPage` takes one page and says what
is then unread: as many rows fewer as went meanwhile. From it the one half is an induction over the
pages that carries `At`, the other one that carries `Skipped`.
-/

namespace Syncle.Verify

open Syncle.Lib

variable {A V O : Type*} [LinearOrder A] [LinearOrder O]

namespace Setup

/-! ## The two conditions on a reading

No extra slides past it, and every lookup made on the way asks for all its keys. -/

/-- Over the rows to come, each an extra or not: of the rows that slide past the reading, none is
an extra. -/
def clearFrom (S : Setup A V O) : Nat → Tally → List Bool → Bool
  | 0, _, _ => true
  | pages + 1, tally, rows =>
    let read := (rows.take S.readSize).foldl (Tally.row S.pageSize) tally
    let rest := rows.drop S.readSize
    let gone := read.settled - tally.settled
    if rest = [] then true
    else !(rest.take gone).any id && clearFrom S pages read (rest.drop gone)

/-- What is asked for while the target is read to its end. -/
def ReadApart (S : Setup A V O) (source : List (Expected A V)) (remove : Bool) :
    Nat → Reading A V O → Prop
  | 0, _ => True
  | pages + 1, x =>
    let page := S.readPage x
    S.TakesApart source remove page.rows
        { x with
          last := (page.rows.getLast?.map (·.place)).or x.last
          offset := x.offset + page.rows.length } ∧
      (¬ (page.hasMore = false ∨ page.rows = []) →
        ReadApart S source remove pages (S.pageTaken source remove x page.rows))

variable {S : Setup A V O} {source : List (Expected A V)} {remove : Bool}
  {target table passed rest page rows : List (TargetRow A V O)} {keys settled : List (Key A)}
  {x : Reading A V O} {pages : Nat}

theorem readApart_succ (h : S.unread x = rest) (apart : S.ReadApart source remove (pages + 1) x) :
    S.TakesApart source remove (rest.take S.readSize)
        { x with
          last := ((rest.take S.readSize).getLast?.map (·.place)).or x.last
          offset := x.offset + (rest.take S.readSize).length } ∧
      (rest.drop S.readSize ≠ [] →
        S.ReadApart source remove pages (S.pageTaken source remove x (rest.take S.readSize))) := by
  obtain ⟨now, later⟩ := apart
  have read : S.readPage x = Page.of S.readSize rest := by rw [readPage_eq, h]
  rw [read] at now later
  refine ⟨now, fun more => later ?_⟩
  rwa [stops_iff]

/-! ## Rows that pass, and rows that stay -/

omit [LinearOrder O] in
/-- Rows that are no extras pass unseen. -/
theorem Scan.passOver (h : Scan S source remove table passed settled x)
    (none : S.extras source rows = []) : Scan S source remove table (passed ++ rows) settled x := by
  refine ⟨?_, h.settled, h.room, h.page⟩
  rw [extras_append, none, List.append_nil]
  exact h.extras

omit [LinearOrder O] in
theorem extras_eq_nil (h : (rows.map (S.isExtra source)).any id = false) :
    S.extras source rows = [] := by
  have none : rows.filter (S.isExtra source) = [] := by
    refine List.filter_eq_nil_iff.mpr fun r hr extra => ?_
    rw [List.any_eq_false] at h
    exact h _ (List.mem_map_of_mem hr) extra
  unfold extras
  rw [none]
  rfl

/-! ## What a settle can touch -/

section Touched

variable (S source remove)

omit [LinearOrder O] in
/-- Only suspects go, and only if each says which row it is. -/
theorem settle_touches (run : TargetRun A V O) :
    ∃ gone : List (Key A), (∀ k ∈ gone, k.usable = true ∧ k ∈ run.extraSuspects.keys) ∧
      (S.settle source remove run).target = S.without remove run.target gone ∧
      ∀ k ∈ (S.settle source remove run).extraSuspects.keys, k ∈ run.extraSuspects.keys := by
  have still : ∀ k, k ∉ (.empty : OrderedMap (Key A) Unit).keys := by simp
  unfold settle
  split
  case isTrue =>
    refine ⟨[], by simp, without_nil.symm, fun k hk => hk⟩
  case isFalse =>
    simp only
    generalize found : (if S.moving then S.stillExtra source run.target run.extraSuspects.keys
      else run.extraSuspects.keys) = suspects
    have among : ∀ k ∈ suspects, k ∈ run.extraSuspects.keys := by
      intro k hk
      rw [← found] at hk
      split at hk
      case isTrue => exact List.mem_of_mem_filter hk
      case isFalse => exact hk
    split
    case isTrue => exact ⟨[], by simp, without_nil.symm, fun k hk => absurd hk (still k)⟩
    case isFalse =>
      split
      case isFalse => exact ⟨[], by simp, without_nil.symm, fun k hk => absurd hk (still k)⟩
      case isTrue removing =>
        by_cases usable : suspects.all Key.usable = true
        · have all := List.all_eq_true.mp usable
          rw [deleteRows_eq all, removing]
          exact ⟨suspects, fun k hk => ⟨all k hk, among k hk⟩, rfl, fun k hk => absurd hk (still k)⟩
        · have refused : S.deleteRows run.target suspects = none := if_neg usable
          simp only [refused]
          exact ⟨[], by simp, without_nil.symm, fun k hk => absurd hk (still k)⟩

omit [LinearOrder O] in
theorem flushExtras_touches (run : TargetRun A V O) (page : List (TargetRow A V O)) :
    ∃ gone : List (Key A),
      (∀ k ∈ gone, k.usable = true ∧ (k ∈ run.extraSuspects.keys ∨ k ∈ page.map (·.key))) ∧
      (S.flushExtras source remove run page).target = S.without remove run.target gone ∧
      ∀ k ∈ (S.flushExtras source remove run page).extraSuspects.keys,
        k ∈ run.extraSuspects.keys ∨ k ∈ page.map (·.key) := by
  unfold flushExtras
  split
  case isTrue => exact ⟨[], by simp, without_nil.symm, fun k hk => Or.inl hk⟩
  case isFalse =>
    simp only
    split
    case isTrue => exact ⟨[], by simp, without_nil.symm, fun k hk => Or.inl hk⟩
    case isFalse =>
      generalize found : ((page.filter fun r => !S.isMarked r).map (·.key)).filter (fun k =>
        k ∉ S.sourceKeys source ((page.filter fun r => !S.isMarked r).map (·.key))) = suspects
      have among : ∀ k ∈ (run.extraSuspects.setAll (suspects.map fun k => (k, ()))).keys,
          k ∈ run.extraSuspects.keys ∨ k ∈ page.map (·.key) := by
        intro k hk
        refine (OrderedMap.mem_keys_setAll.mp hk).imp_right fun new => ?_
        have mem : k ∈ suspects := by simpa using new
        rw [← found] at mem
        obtain ⟨r, hr, rfl⟩ := List.mem_map.mp (List.mem_of_mem_filter mem)
        exact List.mem_map_of_mem (List.mem_of_mem_filter hr)
      split
      case isFalse => exact ⟨[], by simp, without_nil.symm, among⟩
      case isTrue =>
        obtain ⟨gone, suspect, target, left⟩ := settle_touches S source remove
          { run with extraSuspects := run.extraSuspects.setAll (suspects.map fun k => (k, ())) }
        exact ⟨gone, fun k hk => ⟨(suspect k hk).1, among k (suspect k hk).2⟩, target,
          fun k hk => among k (left k hk)⟩

end Touched

/-! ## What slid past

Between two pages of a read by OFFSET: the row stands in front of where the next page begins, so no
later page has it; and deletes only bring it nearer to the front. -/

/-- A key the reading has left behind: its row stands before the next offset, and it is waiting
nowhere. -/
structure Skipped (k : Key A) (x : Reading A V O) : Prop where
  passed : k ∈ ((inOrder TargetRow.key x.run.target).take x.offset).map (·.key)
  page : k ∉ x.page.map (·.key)
  suspect : k ∉ x.run.extraSuspects.keys
  nodup : (x.run.target.map (·.key)).Nodup

variable {k : Key A}

omit [LinearOrder O] in
theorem without_rows (rows' : List (TargetRow A V O)) :
    S.without remove (rows ++ rows') keys =
      S.without remove rows keys ++ S.without remove rows' keys := by
  unfold without
  split
  case isFalse => rfl
  case isTrue => cases S.onDelete <;> simp

omit [LinearOrder O] in
theorem length_without_le : (S.without remove rows keys).length ≤ rows.length := by
  unfold without
  split
  case isFalse => exact le_refl _
  case isTrue =>
    cases S.onDelete with
    | ignore => exact le_refl _
    | soft => simp
    | delete => exact List.length_filter_le _ _

omit [LinearOrder O] in
theorem nodup_without (nodup : (target.map (·.key)).Nodup) :
    ((S.without remove target keys).map (·.key)).Nodup := by
  unfold without
  split
  case isFalse => exact nodup
  case isTrue =>
    cases S.onDelete with
    | ignore => exact nodup
    | delete => exact nodup.sublist (List.filter_sublist.map _)
    | soft =>
      simp only
      rw [List.map_map]
      have same : target.map ((·.key) ∘ fun r =>
          if r.key ∈ keys then { r with marked := true } else r) = target.map (·.key) := by
        refine List.map_congr_left fun r _ => ?_
        by_cases marked : r.key ∈ keys <;> simp [marked]
      rw [same]
      exact nodup

omit [LinearOrder O] in
/-- Rows that go bring a row nearer to the front, never over the offset. -/
theorem passed_without {n : Nat} (nodup : (target.map (·.key)).Nodup)
    (passed : k ∈ ((inOrder TargetRow.key target).take n).map (·.key)) (stays : k ∉ keys) :
    k ∈ ((inOrder TargetRow.key (S.without remove target keys)).take n).map (·.key) := by
  rw [inOrder_key_without fun _ _ => nodup]
  obtain ⟨r, hr, rfl⟩ := List.mem_map.mp passed
  have kept : r ∈ S.without remove ((inOrder TargetRow.key target).take n) keys :=
    (mem_without stays).mpr hr
  have split : S.without remove ((inOrder TargetRow.key target).take n ++
        (inOrder TargetRow.key target).drop n) keys =
      S.without remove ((inOrder TargetRow.key target).take n) keys ++
        S.without remove ((inOrder TargetRow.key target).drop n) keys := without_rows _
  rw [List.take_append_drop] at split
  rw [split, List.take_append]
  refine List.mem_map_of_mem (List.mem_append_left _ ?_)
  have short : (S.without remove ((inOrder TargetRow.key target).take n) keys).length ≤ n :=
    length_without_le.trans (by
      rw [List.length_take]
      exact Nat.min_le_left _ _)
  rw [List.take_of_length_le short]
  exact kept

omit [LinearOrder O] in
theorem Skipped.takeTarget {r : TargetRow A V O} (h : Skipped k x) (other : r.key ≠ k) :
    Skipped k (S.takeTarget source remove x r) := by
  have page : k ∉ (x.page ++ [r]).map (·.key) := by
    rw [List.map_append, List.mem_append, not_or]
    exact ⟨h.page, by simpa using other.symm⟩
  unfold Setup.takeTarget
  simp only
  split
  case isFalse => exact ⟨h.passed, page, h.suspect, h.nodup⟩
  case isTrue =>
    obtain ⟨gone, near, target, left⟩ := flushExtras_touches S source remove x.run (x.page ++ [r])
    have stays : k ∉ gone := fun hk => (near k hk).2.elim h.suspect page
    refine ⟨?_, by simp, fun hk => (left k hk).elim h.suspect page, ?_⟩
    · simp only [target]
      exact passed_without h.nodup h.passed stays
    · simp only [target]
      exact nodup_without h.nodup

omit [LinearOrder O] in
theorem Skipped.takeAll (h : Skipped k x) (others : ∀ r ∈ rows, r.key ≠ k) :
    Skipped k (rows.foldl (S.takeTarget source remove) x) := by
  induction rows generalizing x with
  | nil => exact h
  | cons r rows ih =>
    exact ih (h.takeTarget (others r List.mem_cons_self))
      fun y hy => others y (List.mem_cons_of_mem _ hy)

/-- **What was skipped is not seen again.** -/
theorem Skipped.readTarget (own : S.ownOrder = false) (h : Skipped k x) :
    Skipped k (S.readTarget source remove pages x) := by
  induction pages generalizing x with
  | zero => exact h
  | succ pages ih =>
    rw [readTarget_succ rfl]
    have unread : S.unread x = (inOrder TargetRow.key x.run.target).drop x.offset := by
      unfold Setup.unread
      rw [own]
      rfl
    have taken : Skipped k (S.pageTaken source remove x ((S.unread x).take S.readSize)) := by
      refine Skipped.takeAll ⟨?_, h.page, h.suspect, h.nodup⟩ fun r hr same => ?_
      · refine List.map_subset _ ?_ h.passed
        exact (List.take_prefix_take_left (Nat.le_add_right _ _)).subset
      · have ahead : r ∈ (inOrder TargetRow.key x.run.target).drop x.offset := by
          rw [← unread]
          exact List.mem_of_mem_take hr
        have nodup : ((inOrder TargetRow.key x.run.target).map (·.key)).Nodup :=
          ((List.perm_insertionSort _ _).map _).nodup_iff.mpr h.nodup
        rw [← List.take_append_drop x.offset (inOrder TargetRow.key x.run.target),
          List.map_append] at nodup
        exact (List.nodup_append.mp nodup).2.2 k h.passed r.key (List.mem_map_of_mem ahead) same.symm
    split
    case isTrue => exact taken
    case isFalse => exact ih taken

/-! ## A page at a time -/

section Static

variable (distinct : (source.map (·.key)).Nodup) (once : KeysOnce TargetRow.key table)
  (named : ∀ r ∈ table, S.isMarked r = false → r.key.usable = true)
  (places : S.ownOrder = true → (table.map (·.place)).Nodup)
include distinct once named places

/-- The next page: its rows are scanned, and the rows after it are what is left to be read, less
those that slid in front of the next offset. -/
theorem At.nextPage (h : At S source remove table passed rest settled x)
    (asked : S.ReadApart source remove (pages + 1) x) :
    ∃ settled',
      Scan S source remove table (passed ++ rest.take S.readSize) settled'
        (S.pageTaken source remove x (rest.take S.readSize)) ∧
      tallyOf S source settled' (S.pageTaken source remove x (rest.take S.readSize)) =
        ((rest.map (S.isExtra source)).take S.readSize).foldl (Tally.row S.pageSize)
          (tallyOf S source settled x) ∧
      (rest.drop S.readSize ≠ [] →
        S.unread (S.pageTaken source remove x (rest.take S.readSize)) =
          (rest.drop S.readSize).drop (slide S remove (settled'.length - settled.length))) := by
  have whole := List.take_append_drop S.readSize rest
  have perm : (passed ++ (rest.take S.readSize ++ rest.drop S.readSize)).Perm table := by
    rw [whole]
    exact h.perm
  let start : Reading A V O :=
    { x with
      last := ((rest.take S.readSize).getLast?.map (·.place)).or x.last
      offset := x.offset + (rest.take S.readSize).length }
  have begun : Scan S source remove table passed settled start :=
    ⟨h.scan.extras, h.scan.settled, h.scan.room, h.scan.page⟩
  obtain ⟨settled', scan, tally, gone, rfl⟩ :=
    begun.takeAll distinct once named perm (readApart_succ h.unread asked).1
  refine ⟨settled ++ gone, scan, ?_, fun more => ?_⟩
  · rw [← List.map_take]
    exact tally
  -- what went was among the rows that have passed
  have taken : Taken S remove x (rest.take S.readSize) gone
      (S.pageTaken source remove x (rest.take S.readSize)) := by
    refine ⟨?_, (takeAll_frame (x := start)).1, (takeAll_frame (x := start)).2⟩
    rw [h.scan.settled.table, ← without_append]
    exact scan.settled.table
  have seen : ∀ k ∈ settled ++ gone, k ∈ S.extras source (passed ++ rest.take S.readSize) := by
    intro k hk
    rw [scan.extras]
    exact List.mem_append_left _ hk
  rw [← List.append_assoc] at perm
  have apart : ∀ r ∈ rest.drop S.readSize, r.key ∉ gone := by
    intro r hr hk
    exact ne_of_passed once named perm (seen r.key (List.mem_append_right _ hk)) hr rfl
  have unread := h.unread
  rw [← whole] at unread
  have full : rest.take S.readSize ≠ [] := by
    intro empty
    rcases List.take_eq_nil_iff.mp empty with zero | none
    · exact absurd zero (Nat.pos_iff_ne_zero.mp S.readSize_pos)
    · rw [none] at more
      exact more List.drop_nil
  unfold slide slides
  cases own : S.ownOrder with
  | true =>
    rw [unread_own own unread full taken apart (by
      rw [h.scan.settled.table]
      exact places_without (places own))]
    simp
  | false =>
    by_cases slid : remove = true ∧ S.onDelete = .delete
    · obtain ⟨rfl, deletes⟩ := slid
      have keys := keys_nodup deletes once named
      have now : (x.run.target.map (·.key)).Nodup := by
        rw [h.scan.settled.table]
        unfold without
        rw [if_pos rfl, deletes]
        exact keys.sublist (List.filter_sublist.map _)
      have settledOnce : (settled ++ gone).Nodup := by
        have all : (S.extras source (passed ++ rest.take S.readSize ++ rest.drop S.readSize)).Nodup :=
          (extras_perm perm).nodup_iff.mpr (nodup_extras once named)
        rw [extras_append, scan.extras] at all
        exact (List.nodup_append.mp (List.nodup_append.mp all).1).1
      rw [unread_slid own deletes unread more taken apart now (List.nodup_append.mp settledOnce).2.1 ?_]
      · simp [deletes]
      · intro k hk
        obtain ⟨r, hr, -, rfl⟩ := mem_extras.mp (seen k (List.mem_append_right _ hk))
        refine List.mem_map_of_mem ?_
        rw [h.scan.settled.table]
        refine (mem_without fun old => ?_).mpr (perm.subset (List.mem_append_left _ hr))
        exact (List.nodup_append.mp settledOnce).2.2 _ old _ hk rfl
    · rw [unread_still own (fun removing deletes => slid ⟨removing, deletes⟩) unread taken apart]
      by_cases removing : remove = true
      · have kept : S.onDelete ≠ .delete := fun deletes => slid ⟨removing, deletes⟩
        simp [kept]
      · simp [removing]

/-- **A clear reading settles every extra.** -/
theorem At.run (h : At S source remove table passed rest settled x) (enough : rest.length < pages)
    (apart : S.ReadApart source remove pages x)
    (clear : (S.slides && remove) = true →
      S.clearFrom pages (tallyOf S source settled x) (rest.map (S.isExtra source)) = true) :
    ∃ passed' settled', passed'.Perm table ∧
      Scan S source remove table passed' settled' (S.readTarget source remove pages x) := by
  induction pages generalizing passed rest settled x with
  | zero => exact absurd enough (Nat.not_lt_zero _)
  | succ pages ih =>
    obtain ⟨settled', scan, tally, unread⟩ := h.nextPage distinct once named places apart
    have later := (readApart_succ h.unread apart).2
    rw [readTarget_succ h.unread]
    split
    case isTrue last =>
      refine ⟨_, settled', ?_, scan⟩
      have whole := List.take_append_drop S.readSize rest
      rw [last, List.append_nil] at whole
      rw [whole]
      exact h.perm
    case isFalse more =>
      let d := slide S remove (settled'.length - settled.length)
      have split : passed ++ rest.take S.readSize ++ (rest.drop S.readSize).take d ++
          (rest.drop S.readSize).drop d = passed ++ rest := by
        rw [List.append_assoc, List.take_append_drop, List.append_assoc, List.take_append_drop]
      have rows : rest.drop S.readSize ≠ [] := more
      have clear' : (S.slides && remove) = true →
          ((((rest.drop S.readSize).take d).map (S.isExtra source)).any id = false ∧
            S.clearFrom pages
              (tallyOf S source settled' (S.pageTaken source remove x (rest.take S.readSize)))
              (((rest.drop S.readSize).drop d).map (S.isExtra source)) = true) := by
        intro slid
        have cleared := clear slid
        unfold clearFrom at cleared
        have gone : d = settled'.length - settled.length := by
          simp [d, slide, slid]
        simp only at cleared
        rw [← tally, ← List.map_drop, if_neg (by simpa using rows)] at cleared
        rw [gone, List.map_take, List.map_drop]
        simpa [tallyOf] using cleared
      have none : S.extras source ((rest.drop S.readSize).take d) = [] := by
        by_cases slid : (S.slides && remove) = true
        · exact extras_eq_nil (clear' slid).1
        · have zero : d = 0 := if_neg slid
          rw [zero]
          rfl
      have pos := S.readSize_pos
      refine ih ⟨split ▸ h.perm, scan.passOver none, unread more⟩ ?_ (later more)
        fun slid => (clear' slid).2
      rw [List.length_drop, List.length_drop]
      have some : 0 < (rest.drop S.readSize).length := List.length_pos_iff.mpr more
      rw [List.length_drop] at some
      omega

/-- Otherwise an extra slides past the reading, and is left. -/
theorem At.slips (h : At S source remove table passed rest settled x) (enough : rest.length < pages)
    (apart : S.ReadApart source remove pages x) (slid : (S.slides && remove) = true)
    (unclear : S.clearFrom pages (tallyOf S source settled x) (rest.map (S.isExtra source)) = false) :
    ∃ k ∉ source.map (·.key), Skipped k (S.readTarget source remove pages x) := by
  have both : S.ownOrder = false ∧ S.onDelete = .delete ∧ remove = true := by
    simpa [slides, and_assoc] using slid
  obtain ⟨own, deletes, removing⟩ := both
  have keys := keys_nodup deletes once named
  induction pages generalizing passed rest settled x with
  | zero => exact absurd enough (Nat.not_lt_zero _)
  | succ pages ih =>
    obtain ⟨settled', scan, tally, unread⟩ := h.nextPage distinct once named places apart
    have later := (readApart_succ h.unread apart).2
    rw [readTarget_succ h.unread]
    have whole := List.take_append_drop S.readSize rest
    have perm : (passed ++ rest.take S.readSize ++ rest.drop S.readSize).Perm table := by
      rw [List.append_assoc, whole]
      exact h.perm
    unfold clearFrom at unclear
    simp only at unclear
    by_cases more : rest.drop S.readSize = []
    · rw [← List.map_drop, more] at unclear
      simp at unclear
    · rw [← tally, ← List.map_drop, if_neg (by simpa using more)] at unclear
      rw [if_neg more]
      have unread' := unread more
      unfold slide at unread'
      rw [if_pos slid] at unread'
      have gone : (tallyOf S source settled' (S.pageTaken source remove x
          (rest.take S.readSize))).settled - (tallyOf S source settled x).settled =
            settled'.length - settled.length := rfl
      rw [gone, ← List.map_take, ← List.map_drop] at unclear
      generalize settled'.length - settled.length = d at unread' unclear
      by_cases some : (((rest.drop S.readSize).take d).map (S.isExtra source)).any id = true
      · obtain ⟨_, mem, extra⟩ := List.any_eq_true.mp some
        obtain ⟨r, hr, rfl⟩ := List.mem_map.mp mem
        have ahead : r ∈ rest.drop S.readSize := List.mem_of_mem_take hr
        have isExtra : r.key ∈ S.extras source table :=
          mem_extras.mpr ⟨r, perm.subset (List.mem_append_right _ ahead), extra, rfl⟩
        have unseen : r.key ∉ S.extras source (passed ++ rest.take S.readSize) :=
          fun seen => ne_of_passed once named perm seen ahead rfl
        rw [scan.extras, List.mem_append, List.mem_append, not_or, not_or] at unseen
        refine ⟨r.key, not_mem_source isExtra, Skipped.readTarget own ⟨?_, ?_, unseen.2.1, ?_⟩⟩
        · -- it is in the table, and not among the rows the reading still has before it
          have inTable : r ∈ (S.pageTaken source remove x (rest.take S.readSize)).run.target := by
            rw [scan.settled.table]
            exact (mem_without unseen.1).mpr (perm.subset (List.mem_append_right _ ahead))
          have ordered : r ∈ inOrder TargetRow.key
              (S.pageTaken source remove x (rest.take S.readSize)).run.target :=
            mem_inOrder.mpr inTable
          rw [← List.take_append_drop (S.pageTaken source remove x
            (rest.take S.readSize)).offset (inOrder TargetRow.key _), List.mem_append] at ordered
          refine List.mem_map_of_mem (ordered.resolve_right fun late => ?_)
          have before : r ∈ S.unread (S.pageTaken source remove x (rest.take S.readSize)) := by
            unfold Setup.unread
            rw [own]
            exact late
          rw [unread'] at before
          have nodup : ((passed ++ rest.take S.readSize ++ rest.drop S.readSize).map
              (·.key)).Nodup := (perm.map _).nodup_iff.mpr keys
          rw [List.map_append] at nodup
          have distinct' := (List.nodup_append.mp nodup).2.1
          rw [← List.take_append_drop d (rest.drop S.readSize), List.map_append] at distinct'
          exact (List.nodup_append.mp distinct').2.2 _ (List.mem_map_of_mem hr) _
            (List.mem_map_of_mem before) rfl
        · intro buffered
          obtain ⟨y, hy, same⟩ := List.mem_map.mp buffered
          have eq : y = r := List.inj_on_of_nodup_map keys (scan.page y hy)
            (perm.subset (List.mem_append_right _ ahead)) same
          exact unseen.2.2 (mem_extras.mpr ⟨y, hy, eq ▸ extra, same⟩)
        · rw [scan.settled.table]
          exact nodup_without keys
      · have none : S.extras source ((rest.drop S.readSize).take d) = [] :=
          extras_eq_nil (by simpa using some)
        have split : passed ++ rest.take S.readSize ++ (rest.drop S.readSize).take d ++
            (rest.drop S.readSize).drop d = passed ++ rest := by
          rw [List.append_assoc, List.take_append_drop, List.append_assoc, List.take_append_drop]
        have pos := S.readSize_pos
        refine ih ⟨split ▸ h.perm, scan.passOver none, unread'⟩ ?_ (later more) ?_
        · have length : 0 < (rest.drop S.readSize).length := List.length_pos_iff.mpr more
          rw [List.length_drop, List.length_drop]
          rw [List.length_drop] at length
          omega
        · have quiet : (((rest.drop S.readSize).take d).map (S.isExtra source)).any id = false := by
            simpa using some
          rw [quiet] at unclear
          exact unclear

end Static

end Setup

end Syncle.Verify
