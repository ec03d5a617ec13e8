import Syncle.Verify.Extras
import Syncle.Verify.Lookup

/-!
# What the second pass settles

The accounting of `findExtras`, row by row: of the rows that have passed, the extras are the keys
settled so far, the suspects and the extras of the page, in that order (`Scan`). The table is the
one the pass began with, less what was settled.

Here it is the keys of the target that the source is asked for, page by page, and in a bridge that
is delivering both tables are asked for the suspects once more. `TakeApart` is what a row that joins
the page asks of these lookups.
-/

namespace Syncle.Verify

open Syncle.Lib

variable {A V O : Type*} [LinearOrder A]

namespace Setup

variable (S : Setup A V O) (source : List (Expected A V)) (remove : Bool)

/-- A row the source does not have, and that is not marked. -/
def isExtra (r : TargetRow A V O) : Bool :=
  !S.isMarked r && decide (r.key ∉ source.map (·.key))

def extras (rows : List (TargetRow A V O)) : List (Key A) := (rows.filter (S.isExtra source)).map (·.key)

/-- The table when the rows of these keys are deleted the target's way. -/
def without (target : List (TargetRow A V O)) (keys : List (Key A)) : List (TargetRow A V O) :=
  if remove then
    match S.onDelete with
    | .ignore => target
    | .soft => target.map fun r => if r.key ∈ keys then { r with marked := true } else r
    | .delete => target.filter fun r => r.key ∉ keys
  else target

variable {S source remove} {target table : List (TargetRow A V O)} {keys : List (Key A)}

@[simp] theorem extras_nil : S.extras source [] = [] := rfl

theorem extras_append (rows rows' : List (TargetRow A V O)) :
    S.extras source (rows ++ rows') = S.extras source rows ++ S.extras source rows' := by
  simp [extras]

theorem mem_extras {k : Key A} :
    k ∈ S.extras source target ↔ ∃ r ∈ target, S.isExtra source r = true ∧ r.key = k := by
  simp [extras, and_assoc]

theorem not_mem_source {k : Key A} (h : k ∈ S.extras source target) : k ∉ source.map (·.key) := by
  obtain ⟨r, -, extra, rfl⟩ := mem_extras.mp h
  simp only [isExtra, Bool.and_eq_true, decide_eq_true_eq] at extra
  exact extra.2

theorem without_nil : S.without remove target [] = target := by
  unfold without
  split
  case isTrue => cases S.onDelete <;> simp
  case isFalse => rfl

theorem without_append (ks ls : List (Key A)) :
    S.without remove target (ks ++ ls) = S.without remove (S.without remove target ks) ls := by
  unfold without
  split
  case isFalse => rfl
  case isTrue =>
    cases S.onDelete with
    | ignore => rfl
    | soft =>
      rw [List.map_map]
      refine List.map_congr_left fun r _ => ?_
      by_cases first : r.key ∈ ks <;> by_cases second : r.key ∈ ls <;> simp [first, second]
    | delete =>
      rw [List.filter_filter]
      refine List.filter_congr fun r _ => ?_
      by_cases first : r.key ∈ ks <;> by_cases second : r.key ∈ ls <;> simp [first, second]

/-- A row of another key stays as it is. -/
theorem mem_without {r : TargetRow A V O} (other : r.key ∉ keys) :
    r ∈ S.without remove target keys ↔ r ∈ target := by
  unfold without
  split
  case isFalse => rfl
  case isTrue =>
    cases S.onDelete with
    | ignore => rfl
    | delete => simp [other]
    | soft =>
      simp only [List.mem_map]
      constructor
      · rintro ⟨x, hx, rfl⟩
        by_cases marked : x.key ∈ keys
        · rw [if_pos marked] at other
          exact absurd marked other
        · rw [if_neg marked]
          exact hx
      · intro mem
        exact ⟨r, mem, if_neg other⟩

theorem keysOnce_without (once : KeysOnce TargetRow.key target) :
    KeysOnce TargetRow.key (S.without remove target keys) := by
  unfold without
  split
  case isFalse => exact once
  case isTrue =>
    cases S.onDelete with
    | ignore => exact once
    | delete => exact once.sublist ((List.filter_sublist.map _).filter _)
    | soft =>
      unfold KeysOnce at *
      rw [List.map_map]
      have same : target.map (TargetRow.key ∘ fun r =>
          if r.key ∈ keys then { r with marked := true } else r) = target.map TargetRow.key := by
        refine List.map_congr_left fun r _ => ?_
        by_cases marked : r.key ∈ keys <;> simp [marked]
      rw [same]
      exact once

theorem deleteRows_eq (usable : ∀ k ∈ keys, k.usable = true) :
    S.deleteRows target keys = some (S.without true target keys) := by
  unfold deleteRows without
  rw [if_pos (List.all_eq_true.mpr usable), if_pos rfl]
  cases S.onDelete <;> rfl

/-!
## What is asked for together

Before a page's extras join the suspects, and before suspects are settled, keys are looked up: these
are the keys that one look-up has to tell apart.
-/

variable (S source) in
/-- The two tables can be asked for the suspects again. -/
def SettleApart (run : TargetRun A V O) : Prop :=
  S.moving = true → Apart S.targetText run.extraSuspects.keys

variable (S source) in
/-- The source can be asked for the keys of the page, and if the suspects are then enough to be
settled, for these. -/
def ExtrasApart (run : TargetRun A V O) (page : List (TargetRow A V O)) : Prop :=
  Apart S.targetText ((page.filter fun r => !S.isMarked r).map (·.key)) ∧
    (S.moving = true →
      recheckBatch ≤ (run.extraSuspects.keys ++ S.extras source page).length →
        Apart S.targetText (run.extraSuspects.keys ++ S.extras source page))

variable (S source) in
/-- What is asked for when the row joins the page. -/
def TakeApart (x : Reading A V O) (r : TargetRow A V O) : Prop :=
  S.pageSize ≤ (x.page ++ [r]).length → S.ExtrasApart source x.run (x.page ++ [r])

variable (S source remove) in
/-- What is asked for when these rows join it, one after the other. -/
def TakesApart : List (TargetRow A V O) → Reading A V O → Prop
  | [], _ => True
  | r :: rows, x => S.TakeApart source x r ∧ TakesApart rows (S.takeTarget source remove x r)

/-!
## The suspects are settled

What is still extra at the second look is counted, and removed where that is asked for. The source
does not change meanwhile, so the second look finds what the first did.
-/

section Static

variable (distinct : (source.map (·.key)).Nodup) (usable : ∀ e ∈ source, e.key.usable = true)
  (once : KeysOnce TargetRow.key table)
  (named : ∀ r ∈ table, S.isMarked r = false → r.key.usable = true)

include named in
theorem usable_of_mem_extras {k : Key A} (h : k ∈ S.extras source table) : k.usable = true := by
  obtain ⟨r, mem, extra, rfl⟩ := mem_extras.mp h
  refine named r mem ?_
  unfold isExtra at extra
  simpa using (Bool.and_eq_true_iff.mp extra).1

include once named in
theorem nodup_extras : (S.extras source table).Nodup := by
  have sub : (S.extras source table).Sublist (table.map (·.key)) := List.filter_sublist.map _
  have self : (S.extras source table).filter Key.usable = S.extras source table :=
    List.filter_eq_self.mpr fun k hk => usable_of_mem_extras named hk
  rw [← self]
  exact once.sublist (sub.filter Key.usable)

variable {run : TargetRun A V O} {settled : List (Key A)}

/-- What is settled is counted, and removed if it is to be. -/
structure Settled (S : Setup A V O) (remove : Bool) (table : List (TargetRow A V O))
    (settled : List (Key A)) (run : TargetRun A V O) : Prop where
  extra : run.extra = some settled.length
  table : run.target = S.without remove table settled

include distinct once named in
/-- The data has not moved: a second look at the suspects changes nothing. -/
theorem stillExtra_eq (h : Settled S remove table settled run)
    (nodup : (settled ++ keys).Nodup) (among : ∀ k ∈ keys, k ∈ S.extras source table)
    (apart : Apart S.targetText keys) :
    S.stillExtra source run.target keys = keys := by
  unfold stillExtra
  refine List.filter_eq_self.mpr fun k hk => ?_
  have gone : k ∉ S.sourceKeys source keys := by
    intro mem
    have found := (mem_keys_fetchByKeys S.sourceMaxRows_pos (distinct.filter _) apart).mp mem
    exact not_mem_source (among k hk) found.2.2
  obtain ⟨r, mem, extra, rfl⟩ := mem_extras.mp (among k hk)
  have unmarked : S.isMarked r = false := by
    unfold isExtra at extra
    simpa using (Bool.and_eq_true_iff.mp extra).1
  have open' : r.key ∉ settled := fun old => (List.nodup_append.mp nodup).2.2 _ old _ hk rfl
  have there : (S.fetchTarget S.targetText run.target keys).get? r.key = some r := by
    unfold fetchTarget
    rw [h.table, get?_fetchByKeys S.targetMaxRows_pos (keysOnce_without once) apart hk,
      rowAt_eq_some (keysOnce_without once)]
    exact ⟨named r mem unmarked, (mem_without open').mpr mem, rfl⟩
  simp [gone, there, unmarked]

include distinct once named in
theorem Settled.settle (h : Settled S remove table settled run)
    (nodup : (settled ++ run.extraSuspects.keys).Nodup)
    (among : ∀ k ∈ run.extraSuspects.keys, k ∈ S.extras source table)
    (apart : S.SettleApart run) :
    Settled S remove table (settled ++ run.extraSuspects.keys) (S.settle source remove run) ∧
      (S.settle source remove run).extraSuspects.keys = [] := by
  unfold Setup.settle
  by_cases empty : run.extraSuspects.size = 0
  · rw [if_pos empty]
    have none : run.extraSuspects.keys = [] := by
      rw [← OrderedMap.length_keys] at empty
      exact List.eq_nil_of_length_eq_zero empty
    rw [none, List.append_nil]
    exact ⟨h, rfl⟩
  · rw [if_neg empty]
    have same : (if S.moving then S.stillExtra source run.target run.extraSuspects.keys
        else run.extraSuspects.keys) = run.extraSuspects.keys := by
      split
      case isTrue moving => exact stillExtra_eq distinct once named h nodup among (apart moving)
      case isFalse => rfl
    have any : run.extraSuspects.keys ≠ [] := by
      intro none
      rw [← OrderedMap.length_keys, none] at empty
      exact empty rfl
    simp only [same, if_neg any]
    have counted : run.extra.getD 0 + run.extraSuspects.keys.length =
        (settled ++ run.extraSuspects.keys).length := by
      rw [h.extra, List.length_append]
      rfl
    split
    case isFalse keep =>
      refine ⟨⟨congrArg some counted, ?_⟩, rfl⟩
      simp only [h.table]
      unfold without
      rw [if_neg keep, if_neg keep]
    case isTrue removing =>
      subst removing
      rw [deleteRows_eq fun k hk => usable_of_mem_extras named (among k hk)]
      refine ⟨⟨congrArg some counted, ?_⟩, rfl⟩
      simp only [h.table]
      exact (without_append settled run.extraSuspects.keys).symm

/-!
## A page is flushed

The keys of a page that the source does not have become suspects; at a full batch they are settled.
-/

variable {page : List (TargetRow A V O)}

include distinct named in
/-- What the source is asked for, and does not have, are the extras of the page. -/
theorem suspects_eq (among : ∀ r ∈ page, r ∈ table)
    (apart : Apart S.targetText ((page.filter fun r => !S.isMarked r).map (·.key))) :
    ((page.filter fun r => !S.isMarked r).map (·.key)).filter
        (fun k => k ∉ S.sourceKeys source ((page.filter fun r => !S.isMarked r).map (·.key))) =
      S.extras source page := by
  unfold extras
  rw [List.filter_map, List.filter_filter]
  refine congrArg _ (List.filter_congr fun r hr => ?_)
  by_cases marked : S.isMarked r = true
  · simp [isExtra, marked]
  · have unmarked : S.isMarked r = false := by simpa using marked
    have asked : r.key ∈ (page.filter fun r => !S.isMarked r).map (·.key) :=
      List.mem_map_of_mem (List.mem_filter.mpr ⟨hr, by simp [unmarked]⟩)
    have known : r.key ∈ S.sourceKeys source ((page.filter fun r => !S.isMarked r).map (·.key)) ↔
        r.key ∈ source.map (·.key) := by
      refine (mem_keys_fetchByKeys S.sourceMaxRows_pos (distinct.filter _) apart).trans ?_
      constructor
      · intro h
        exact h.2.2
      · intro h
        exact ⟨asked, named r (among r hr) unmarked, h⟩
    simp only [Function.comp_apply, isExtra, unmarked, Bool.not_false, Bool.true_and, Bool.and_true]
    exact decide_eq_decide.mpr (not_congr known)

/-- Flushed: the extras of the page are suspects, and enough suspects are settled. -/
def Flushed (S : Setup A V O) (remove : Bool) (table : List (TargetRow A V O))
    (settled suspects : List (Key A)) (run : TargetRun A V O) : Prop :=
  if recheckBatch ≤ suspects.length then
    Settled S remove table (settled ++ suspects) run ∧ run.extraSuspects.keys = []
  else Settled S remove table settled run ∧ run.extraSuspects.keys = suspects

include distinct once named in
theorem Settled.flushExtras (h : Settled S remove table settled run)
    (room : run.extraSuspects.size < recheckBatch)
    (nodup : (settled ++ (run.extraSuspects.keys ++ S.extras source page)).Nodup)
    (among : ∀ k ∈ run.extraSuspects.keys, k ∈ S.extras source table)
    (rows : ∀ r ∈ page, r ∈ table) (apart : S.ExtrasApart source run page) :
    Flushed S remove table settled (run.extraSuspects.keys ++ S.extras source page)
      (S.flushExtras source remove run page) := by
  have nothing : S.extras source page = [] →
      Flushed S remove table settled (run.extraSuspects.keys ++ S.extras source page) run := by
    intro none
    rw [none, List.append_nil]
    unfold Flushed
    rw [OrderedMap.length_keys, if_neg (by omega)]
    exact ⟨h, rfl⟩
  unfold Setup.flushExtras
  by_cases empty : page = []
  · rw [if_pos empty]
    exact nothing (by rw [empty, extras_nil])
  · rw [if_neg empty]
    have found := suspects_eq distinct named rows apart.1
    by_cases marked : (page.filter fun r => !S.isMarked r).map (·.key) = []
    · simp only [if_pos marked]
      refine nothing ?_
      rw [← found, marked]
      rfl
    · simp only [if_neg marked, found]
      have keys : (run.extraSuspects.setAll ((S.extras source page).map fun k => (k, ()))).keys =
          run.extraSuspects.keys ++ S.extras source page := by
        have later := (List.nodup_append.mp nodup).2.1
        have same : ((S.extras source page).map fun k => (k, ())).map Prod.fst =
            S.extras source page := by
          rw [List.map_map]
          exact List.map_id _
        unfold OrderedMap.keys
        rw [OrderedMap.entries_setAll, List.map_append, same]
        · rw [same]
          exact (List.nodup_append.mp later).2.1
        · rw [same]
          intro k mem old
          exact (List.nodup_append.mp later).2.2 _ old _ mem rfl
      unfold Flushed
      rw [← OrderedMap.length_keys]
      simp only [keys]
      split
      case isFalse => exact ⟨⟨h.extra, h.table⟩, keys⟩
      case isTrue enough =>
        have started : Settled S remove table settled
            { run with
              extraSuspects :=
                run.extraSuspects.setAll ((S.extras source page).map fun k => (k, ())) } :=
          ⟨h.extra, h.table⟩
        have done := started.settle distinct once named (by simpa only [keys] using nodup) (by
          simp only [keys]
          intro k mem
          rcases List.mem_append.mp mem with old | new
          · exact among k old
          · obtain ⟨r, hr, extra, rfl⟩ := mem_extras.mp new
            exact mem_extras.mpr ⟨r, rows r hr, extra, rfl⟩) (by
          intro moving
          simp only [keys]
          exact apart.2 moving enough)
        simpa only [keys] using done

end Static

/-!
## A row at a time

Each row that is taken keeps `Scan`, and its counts go as `Tally.row` says: when a page is flushed and
a batch is full can be told from which rows are extras, without a look-up.
-/

/-- The counts of the pass: rows not yet flushed, extras among them, suspects, keys settled. -/
structure Tally where
  buffered : Nat := 0
  found : Nat := 0
  suspects : Nat := 0
  settled : Nat := 0
  deriving DecidableEq

def Tally.row (pageSize : Nat) (t : Tally) (extra : Bool) : Tally :=
  if pageSize ≤ t.buffered + 1 then
    if recheckBatch ≤ t.suspects + (t.found + extra.toNat) then
      { settled := t.settled + (t.suspects + (t.found + extra.toNat)) }
    else { suspects := t.suspects + (t.found + extra.toNat), settled := t.settled }
  else { t with buffered := t.buffered + 1, found := t.found + extra.toNat }

/-- The rows of `passed` have been read, or left out and none of them an extra. -/
structure Scan (S : Setup A V O) (source : List (Expected A V)) (remove : Bool)
    (table passed : List (TargetRow A V O)) (settled : List (Key A)) (x : Reading A V O) : Prop where
  extras : S.extras source passed =
    settled ++ (x.run.extraSuspects.keys ++ S.extras source x.page)
  settled : Settled S remove table settled x.run
  room : x.run.extraSuspects.size < recheckBatch
  page : ∀ r ∈ x.page, r ∈ table

def tallyOf (S : Setup A V O) (source : List (Expected A V)) (settled : List (Key A))
    (x : Reading A V O) : Tally :=
  { buffered := x.page.length
    found := (S.extras source x.page).length
    suspects := x.run.extraSuspects.size
    settled := settled.length }

theorem length_extras_snoc (page : List (TargetRow A V O)) (r : TargetRow A V O) :
    (S.extras source (page ++ [r])).length =
      (S.extras source page).length + (S.isExtra source r).toNat := by
  rw [extras_append, List.length_append]
  cases extra : S.isExtra source r <;> simp [extras, extra]

theorem extras_perm {rows rows' : List (TargetRow A V O)} (perm : rows.Perm rows') :
    (S.extras source rows).Perm (S.extras source rows') :=
  (perm.filter _).map _

variable (distinct : (source.map (·.key)).Nodup) (once : KeysOnce TargetRow.key table)
  (named : ∀ r ∈ table, S.isMarked r = false → r.key.usable = true)
  {passed rest rows : List (TargetRow A V O)} {settled : List (Key A)} {x : Reading A V O}
include distinct once named

theorem Scan.takeTarget {r : TargetRow A V O} (h : Scan S source remove table passed settled x)
    (perm : (passed ++ r :: rest).Perm table) (apart : S.TakeApart source x r) :
    ∃ settled',
      Scan S source remove table (passed ++ [r]) settled' (S.takeTarget source remove x r) ∧
      tallyOf S source settled' (S.takeTarget source remove x r) =
        (tallyOf S source settled x).row S.pageSize (S.isExtra source r) ∧
      settled <+: settled' := by
  have extras : S.extras source (passed ++ [r]) =
      settled ++ (x.run.extraSuspects.keys ++ S.extras source (x.page ++ [r])) := by
    rw [extras_append, extras_append, h.extras]
    simp only [List.append_assoc]
  have page : ∀ y ∈ x.page ++ [r], y ∈ table := by
    intro y mem
    rcases List.mem_append.mp mem with old | new
    · exact h.page y old
    · obtain rfl := List.mem_singleton.mp new
      exact perm.subset (by simp)
  have found : (S.extras source (x.page ++ [r])).length =
      (S.extras source x.page).length + (S.isExtra source r).toNat := length_extras_snoc x.page r
  have step : S.takeTarget source remove x r =
      if S.pageSize ≤ (x.page ++ [r]).length then
        { x with run := S.flushExtras source remove x.run (x.page ++ [r]), page := [] }
      else { x with page := x.page ++ [r] } := rfl
  rw [step]
  unfold Tally.row
  by_cases full : S.pageSize ≤ (x.page ++ [r]).length
  · have full' : S.pageSize ≤ (tallyOf S source settled x).buffered + 1 := by
      rw [List.length_append] at full
      exact full
    rw [if_pos full, if_pos full']
    have nodup : (S.extras source (passed ++ [r])).Nodup := by
      have all : (S.extras source (passed ++ r :: rest)).Nodup :=
        (extras_perm perm).nodup_iff.mpr (nodup_extras once named)
      rw [List.append_cons, extras_append] at all
      exact (List.nodup_append.mp all).1
    have among : ∀ k ∈ x.run.extraSuspects.keys, k ∈ S.extras source table := by
      intro k hk
      have mem : k ∈ S.extras source passed := by
        rw [h.extras]
        exact List.mem_append_right _ (List.mem_append_left _ hk)
      obtain ⟨y, hy, extra, rfl⟩ := mem_extras.mp mem
      exact mem_extras.mpr ⟨y, perm.subset (List.mem_append_left _ hy), extra, rfl⟩
    rw [extras] at nodup
    have flushed :=
      h.settled.flushExtras distinct once named h.room nodup among page (apart full)
    have suspects : (x.run.extraSuspects.keys ++ S.extras source (x.page ++ [r])).length =
        x.run.extraSuspects.size + ((S.extras source x.page).length + (S.isExtra source r).toNat) := by
      rw [List.length_append, found, OrderedMap.length_keys]
    unfold Flushed at flushed
    split at flushed
    case isTrue enough =>
      obtain ⟨done, none⟩ := flushed
      refine ⟨_, ⟨?_, done, ?_, ?_⟩, ?_, List.prefix_append _ _⟩
      · rw [extras, none]
        simp
      · rw [← OrderedMap.length_keys, none]
        exact Nat.zero_lt_of_lt (show 499 < recheckBatch by decide)
      · intro y mem
        cases mem
      · rw [suspects] at enough
        rw [if_pos (show recheckBatch ≤ (tallyOf S source settled x).suspects +
          ((tallyOf S source settled x).found + (S.isExtra source r).toNat) from enough)]
        unfold tallyOf
        simp only [← OrderedMap.length_keys, none, List.length_append, found]
        rfl
    case isFalse few =>
      obtain ⟨done, keys⟩ := flushed
      refine ⟨settled, ⟨?_, done, ?_, ?_⟩, ?_, List.prefix_refl _⟩
      · rw [extras, keys]
        simp
      · rw [← OrderedMap.length_keys, keys]
        omega
      · intro y mem
        cases mem
      · rw [suspects] at few
        rw [if_neg (show ¬ recheckBatch ≤ (tallyOf S source settled x).suspects +
          ((tallyOf S source settled x).found + (S.isExtra source r).toNat) from few)]
        unfold tallyOf
        simp only [← OrderedMap.length_keys, keys, List.length_append, found]
        rfl
  · have room : ¬ S.pageSize ≤ (tallyOf S source settled x).buffered + 1 := by
      rw [List.length_append] at full
      exact full
    rw [if_neg full, if_neg room]
    refine ⟨settled, ⟨extras, h.settled, h.room, page⟩, ?_, List.prefix_refl _⟩
    unfold tallyOf
    simp [found]

/-- A page is taken row by row. -/
theorem Scan.takeAll (h : Scan S source remove table passed settled x)
    (perm : (passed ++ (rows ++ rest)).Perm table) (apart : S.TakesApart source remove rows x) :
    ∃ settled',
      Scan S source remove table (passed ++ rows) settled' (rows.foldl (S.takeTarget source remove) x) ∧
      tallyOf S source settled' (rows.foldl (S.takeTarget source remove) x) =
        (rows.map (S.isExtra source)).foldl (Tally.row S.pageSize) (tallyOf S source settled x) ∧
      settled <+: settled' := by
  induction rows generalizing passed settled x with
  | nil =>
    rw [List.append_nil]
    exact ⟨settled, h, rfl, List.prefix_refl _⟩
  | cons r rows ih =>
    obtain ⟨mid, scan, tally, sub⟩ := h.takeTarget distinct once named perm apart.1
    rw [List.cons_append, List.append_cons] at perm
    obtain ⟨settled', scan', tally', sub'⟩ := ih scan perm apart.2
    rw [List.append_assoc] at scan'
    refine ⟨settled', scan', ?_, sub.trans sub'⟩
    rw [List.foldl_cons, List.map_cons, List.foldl_cons, ← tally]
    exact tally'

/-- At the end of the table, what is left is flushed and settled. -/
theorem Scan.finish (h : Scan S source remove table passed settled x) (perm : passed.Perm table)
    (page : S.ExtrasApart source x.run x.page)
    (last : S.SettleApart (S.flushExtras source remove x.run x.page)) :
    Settled S remove table (S.extras source passed)
      (S.settle source remove (S.flushExtras source remove x.run x.page)) := by
  have nodup : (S.extras source passed).Nodup :=
    (extras_perm perm).nodup_iff.mpr (nodup_extras once named)
  have among : ∀ k ∈ S.extras source passed, k ∈ S.extras source table :=
    fun k hk => (extras_perm perm).subset hk
  have flushed := h.settled.flushExtras distinct once named h.room (h.extras ▸ nodup)
    (fun k hk => among k (by
      rw [h.extras]
      exact List.mem_append_right _ (List.mem_append_left _ hk))) h.page page
  rw [h.extras]
  unfold Flushed at flushed
  split at flushed
  case isTrue =>
    obtain ⟨done, none⟩ := flushed
    have nodup' : (settled ++ (x.run.extraSuspects.keys ++ S.extras source x.page) ++
        (S.flushExtras source remove x.run x.page).extraSuspects.keys).Nodup := by
      rw [none, List.append_nil, ← h.extras]
      exact nodup
    have done' := done.settle distinct once named nodup' (by
      rw [none]
      intro k hk
      cases hk) last
    rw [none, List.append_nil] at done'
    exact done'.1
  case isFalse =>
    obtain ⟨done, keys⟩ := flushed
    have nodup' : (settled ++
        (S.flushExtras source remove x.run x.page).extraSuspects.keys).Nodup := by
      rw [keys, ← h.extras]
      exact nodup
    have done' := done.settle distinct once named nodup' (by
      rw [keys]
      intro k hk
      refine among k ?_
      rw [h.extras]
      exact List.mem_append_right _ hk) last
    rw [keys] at done'
    exact done'.1

end Setup

end Syncle.Verify
