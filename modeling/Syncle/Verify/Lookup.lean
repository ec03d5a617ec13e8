import Syncle.Verify.Compare

/-!
# What a lookup by key finds

`fetchByKeys` reads a superset of what was asked for, page by page, and matches the keys itself.
Where no two rows of the table have the same key, it finds the row of each key that was asked for
(`get?_fetchByKeys`), and nothing for a key with a NULL in it.

That much needs the keys to be `Apart`: no two of them have, in one column, different values that
`lookupValues` takes for one. Where they are not, one of the keys is not asked for (`apart_iff`).
-/

namespace Syncle.Verify

open Syncle.Lib

variable {A R : Type*} [LinearOrder A]

/-- The key columns are a key: of the rows that have a value in each, no two agree. -/
def KeysOnce (keyOf : R → Key A) (rows : List R) : Prop :=
  ((rows.map keyOf).filter Key.usable).Nodup

instance (keyOf : R → Key A) (rows : List R) : Decidable (KeysOnce keyOf rows) :=
  inferInstanceAs (Decidable (List.Nodup _))

/-- The row of a key. -/
def rowAt (keyOf : R → Key A) (rows : List R) (k : Key A) : Option R :=
  if k.usable then rows.find? fun r => keyOf r = k else none

variable {keyOf : R → Key A} {rows : List R}

theorem KeysOnce.eq_of_key (once : KeysOnce keyOf rows) {r x : R} (hr : r ∈ rows) (hx : x ∈ rows)
    (usable : (keyOf r).usable = true) (same : keyOf r = keyOf x) : r = x := by
  have nodup : ((rows.filter fun r => (keyOf r).usable).map keyOf).Nodup := by
    unfold KeysOnce at once
    rw [List.filter_map] at once
    exact once
  refine List.inj_on_of_nodup_map nodup ?_ ?_ same
  · exact List.mem_filter.mpr ⟨hr, usable⟩
  · rw [same] at usable
    exact List.mem_filter.mpr ⟨hx, usable⟩

theorem rowAt_eq_some (once : KeysOnce keyOf rows) {k : Key A} {r : R} :
    rowAt keyOf rows k = some r ↔ k.usable = true ∧ r ∈ rows ∧ keyOf r = k := by
  unfold rowAt
  constructor
  · intro h
    split at h
    case isFalse => cases h
    case isTrue usable =>
      have named : keyOf r = k := by simpa using List.find?_some h
      exact ⟨usable, List.mem_of_find?_eq_some h, named⟩
  · rintro ⟨usable, mem, rfl⟩
    rw [if_pos usable]
    cases found : rows.find? fun x => keyOf x = keyOf r with
    | none => simpa using List.find?_eq_none.mp found r mem
    | some x =>
      have named : keyOf x = keyOf r := by simpa using List.find?_some found
      rw [once.eq_of_key mem (List.mem_of_find?_eq_some found) usable named.symm]

theorem rowAt_eq_none {k : Key A} :
    rowAt keyOf rows k = none ↔ k.usable = true → k ∉ rows.map keyOf := by
  unfold rowAt
  split <;> simp_all

/-- The pages together are the rows from the offset on. -/
theorem readPages_eq {size : Nat} (pos : 0 < size) {pages offset : Nat}
    (enough : rows.length < pages + offset) : readPages rows size pages offset = rows.drop offset := by
  induction pages generalizing offset with
  | zero =>
    rw [List.drop_eq_nil_of_le (by omega)]
    rfl
  | succ pages ih =>
    simp only [readPages, Page.of, decide_eq_false_iff_not, Nat.not_lt, List.take_eq_nil_iff]
    split
    case isTrue last =>
      rcases last with short | zero | empty
      · exact List.take_of_length_le short
      · omega
      · rw [empty]
        exact List.take_nil
    case isFalse more =>
      -- a full page, so the next one starts where this one ends
      have full : ((rows.drop offset).take size).length = size := by
        rw [List.length_take]
        omega
      rw [full, ih (by omega), ← List.drop_drop, List.take_append_drop]

/-! ## What is asked for -/

section Values

omit [LinearOrder A]

theorem mem_lookupValues {t : WithBot A → String} {values : List (WithBot A)} {v : WithBot A} :
    v ∈ lookupValues t values ↔
      (OrderedMap.empty.setAll (values.map fun value => (t value, value))).get? (t v) = some v := by
  unfold lookupValues OrderedMap.values
  rw [OrderedMap.get?_eq_some, List.mem_map]
  constructor
  · rintro ⟨⟨name, value⟩, mem, rfl⟩
    -- what an entry says was set under the value's own text
    have set := OrderedMap.of_get?_setAll (OrderedMap.get?_eq_some.mpr mem)
    obtain ⟨value', -, same⟩ := List.mem_map.mp set
    obtain ⟨rfl, rfl⟩ := Prod.mk.inj same
    exact mem
  · intro mem
    exact ⟨_, mem, rfl⟩

/-- Of two values with one text, only one is asked for. -/
theorem eq_of_mem_lookupValues {t : WithBot A → String} {values : List (WithBot A)}
    {v v' : WithBot A} (h : v ∈ lookupValues t values) (h' : v' ∈ lookupValues t values)
    (same : t v = t v') : v = v' := by
  rw [mem_lookupValues] at h h'
  rw [same, h'] at h
  exact (Option.some.inj h).symm

theorem mem_lookupValues_of_apart {t : WithBot A → String} {values : List (WithBot A)}
    {v : WithBot A} (mem : v ∈ values) (apart : ∀ w ∈ values, t w = t v → w = v) :
    v ∈ lookupValues t values := by
  refine mem_lookupValues.mpr (OrderedMap.get?_setAll_of_same ?_ fun w there => ?_)
  · exact List.mem_map.mpr ⟨v, mem, rfl⟩
  · obtain ⟨value, among, same⟩ := List.mem_map.mp there
    obtain ⟨named, rfl⟩ := Prod.mk.inj same
    exact apart value among named

end Values

variable {text : Nat → WithBot A → String}

/-- No two of the keys that can be asked for have, in one column, different values of one text. -/
def Apart (text : Nat → WithBot A → String) (keys : List (Key A)) : Prop :=
  ∀ k ∈ keys.filter Key.usable, ∀ k' ∈ keys.filter Key.usable, ∀ c ∈ (k.zip k').zipIdx,
    text c.2 c.1.1 = text c.2 c.1.2 → c.1.1 = c.1.2

instance (text : Nat → WithBot A → String) (keys : List (Key A)) : Decidable (Apart text keys) :=
  inferInstanceAs (Decidable (∀ k ∈ keys.filter Key.usable, _))

theorem Apart.eq {keys : List (Key A)} (apart : Apart text keys) {k k' : Key A}
    (hk : k ∈ keys.filter Key.usable) (hk' : k' ∈ keys.filter Key.usable) {i : Nat}
    {v v' : WithBot A} (hv : k[i]? = some v) (hv' : k'[i]? = some v') (same : text i v = text i v') :
    v = v' := by
  refine apart k hk k' hk' ((v, v'), i) ?_ same
  exact List.mem_zipIdx_iff_getElem?.mpr (List.getElem?_zip_eq_some.mpr ⟨hv, hv'⟩)

/-- Fewer keys, in any order, are apart as they were. -/
theorem Apart.subset {keys keys' : List (Key A)} (apart : Apart text keys) (sub : keys' ⊆ keys) :
    Apart text keys' := by
  have among : keys'.filter Key.usable ⊆ keys.filter Key.usable := fun k hk =>
    List.mem_filter.mpr ⟨sub (List.mem_of_mem_filter hk), (List.mem_filter.mp hk).2⟩
  exact fun k hk k' hk' => apart k (among hk) k' (among hk')

/-- **Each key is asked for if and only if the keys are apart.** -/
theorem apart_iff {keys : List (Key A)} :
    Apart text keys ↔
      ∀ k ∈ keys.filter Key.usable, narrowed text (keys.filter Key.usable) k = true := by
  unfold narrowed
  constructor
  · intro apart k hk
    refine List.all_eq_true.mpr fun c hc => decide_eq_true ?_
    have here := List.mem_zipIdx_iff_getElem?.mp hc
    refine mem_lookupValues_of_apart (List.mem_filterMap.mpr ⟨k, hk, here⟩) fun w mem same => ?_
    obtain ⟨k', hk', there⟩ := List.mem_filterMap.mp mem
    exact apart.eq hk' hk there here same
  · intro all k hk k' hk' c hc same
    obtain ⟨here, there⟩ := List.getElem?_zip_eq_some.mp (List.mem_zipIdx_iff_getElem?.mp hc)
    have asked := List.all_eq_true.mp (all k hk) (c.1.1, c.2) (List.mem_zipIdx_iff_getElem?.mpr here)
    have asked' :=
      List.all_eq_true.mp (all k' hk') (c.1.2, c.2) (List.mem_zipIdx_iff_getElem?.mpr there)
    exact eq_of_mem_lookupValues (of_decide_eq_true asked) (of_decide_eq_true asked') same

/-! ## What is found -/

variable {maxRows : Nat} {keys : List (Key A)}

/-- The rows a lookup reads and keeps. -/
def matching (text : Nat → WithBot A → String) (keyOf : R → Key A) (rows : List R)
    (keys : List (Key A)) : List R :=
  (inOrder keyOf (rows.filter fun r => narrowed text (keys.filter Key.usable) (keyOf r))).filter
    fun r => keyOf r ∈ keys.filter Key.usable

theorem mem_matching (apart : Apart text keys) {r : R} :
    r ∈ matching text keyOf rows keys ↔ r ∈ rows ∧ keyOf r ∈ keys ∧ (keyOf r).usable = true := by
  simp only [matching, List.mem_filter, mem_inOrder, decide_eq_true_eq]
  constructor
  · rintro ⟨⟨mem, _⟩, wanted⟩
    exact ⟨mem, wanted⟩
  · rintro ⟨mem, wanted⟩
    exact ⟨⟨mem, apart_iff.mp apart _ (List.mem_filter.mpr wanted)⟩, wanted⟩

theorem nodup_matching (once : KeysOnce keyOf rows) :
    ((matching text keyOf rows keys).map keyOf).Nodup := by
  have perm := (List.perm_insertionSort (fun a b => keyOf a ≤ keyOf b)
    (rows.filter fun r => narrowed text (keys.filter Key.usable) (keyOf r))).filter
      fun r => decide (keyOf r ∈ keys.filter Key.usable)
  refine (perm.map keyOf).nodup_iff.mpr ?_
  unfold KeysOnce at once
  rw [List.filter_map] at once
  refine once.sublist (List.Sublist.map keyOf ?_)
  rw [List.filter_filter]
  refine List.monotone_filter_right rows fun r hr => ?_
  simp only [Bool.and_eq_true, decide_eq_true_eq, List.mem_filter] at hr
  exact hr.1.2

theorem entries_fetchByKeys (pos : 0 < maxRows) (once : KeysOnce keyOf rows) :
    (fetchByKeys maxRows text keyOf rows keys).entries =
      (matching text keyOf rows keys).map fun r => (keyOf r, r) := by
  unfold fetchByKeys
  simp only
  split
  case isTrue nothing =>
    simp [matching, nothing, OrderedMap.empty]
  case isFalse =>
    rw [readPages_eq (by omega) ?_, List.drop_zero]
    · exact OrderedMap.entries_setAll (by
        rw [List.map_map]
        exact nodup_matching once) (by simp)
    · have shorter := List.length_filter_le (fun r => narrowed text (keys.filter Key.usable) (keyOf r))
        rows
      simp only [inOrder, List.length_insertionSort]
      omega

/-- **A lookup finds the row of each key it was asked for.** -/
theorem get?_fetchByKeys (pos : 0 < maxRows) (once : KeysOnce keyOf rows) (apart : Apart text keys)
    {k : Key A} (asked : k ∈ keys) :
    (fetchByKeys maxRows text keyOf rows keys).get? k = rowAt keyOf rows k := by
  refine Option.ext fun r => ?_
  rw [OrderedMap.get?_eq_some, entries_fetchByKeys pos once, rowAt_eq_some once]
  simp only [List.mem_map, mem_matching apart, Prod.mk.injEq]
  constructor
  · rintro ⟨x, ⟨mem, _, usable⟩, rfl, rfl⟩
    exact ⟨usable, mem, rfl⟩
  · rintro ⟨usable, mem, rfl⟩
    exact ⟨r, ⟨mem, asked, usable⟩, rfl, rfl⟩

theorem mem_keys_fetchByKeys (pos : 0 < maxRows) (once : KeysOnce keyOf rows)
    (apart : Apart text keys) {k : Key A} :
    k ∈ (fetchByKeys maxRows text keyOf rows keys).keys ↔
      k ∈ keys ∧ k.usable = true ∧ k ∈ rows.map keyOf := by
  unfold OrderedMap.keys
  rw [entries_fetchByKeys pos once, List.map_map]
  simp only [List.mem_map, mem_matching apart, Function.comp_apply]
  constructor
  · rintro ⟨r, ⟨mem, asked, usable⟩, rfl⟩
    exact ⟨asked, usable, r, mem, rfl⟩
  · rintro ⟨asked, usable, r, mem, rfl⟩
    exact ⟨r, ⟨mem, asked, usable⟩, rfl⟩

theorem values_fetchByKeys (pos : 0 < maxRows) (once : KeysOnce keyOf rows) :
    (fetchByKeys maxRows text keyOf rows keys).values = matching text keyOf rows keys := by
  unfold OrderedMap.values
  rw [entries_fetchByKeys pos once, List.map_map]
  exact List.map_id _

end Syncle.Verify
