import Syncle.Verify.Lookup

/-!
# What is wrong with a target, and what a write mends

A source row is `wrong` in the target when its row is `absent` there or `changed`. Where no two
rows of the target share a key, writing a row that says which row it is mends that row
(`wrong_putAll`) and touches the row of no other key (`mem_putAll`).
-/

namespace Syncle.Verify

open Syncle.Lib

variable {A V O : Type*} [LinearOrder A]

namespace Setup

variable (S : Setup A V O)

/-- The target has no row of the key. -/
def absent (target : List (TargetRow A V O)) (e : Expected A V) : Bool :=
  (rowAt TargetRow.key target e.key).isNone

/-- The target's row is another one than is written. -/
def changed (target : List (TargetRow A V O)) (e : Expected A V) : Bool :=
  (rowAt TargetRow.key target e.key).any (S.differs e)

def wrong (target : List (TargetRow A V O)) (e : Expected A V) : Bool :=
  (rowAt TargetRow.key target e.key).all (S.differs e)

def putAll (target : List (TargetRow A V O)) (es : List (Expected A V)) : List (TargetRow A V O) :=
  es.foldl S.upsertRow target

variable {S} {target : List (TargetRow A V O)} {e : Expected A V} {es : List (Expected A V)}

theorem wrong_of_absent (h : absent target e = true) : S.wrong target e = true := by
  unfold absent at h
  unfold wrong
  rw [Option.isNone_iff_eq_none.mp h]
  rfl

theorem wrong_of_changed (h : S.changed target e = true) : S.wrong target e = true := by
  unfold changed at h
  unfold wrong
  cases found : rowAt TargetRow.key target e.key with
  | none => rfl
  | some r =>
    rw [found] at h
    exact h

/-- Not wrong: the row is there, and says what is written. -/
theorem wrong_eq_false :
    S.wrong target e = false ↔
      ∃ r, rowAt TargetRow.key target e.key = some r ∧ S.differs e r = false := by
  unfold wrong
  cases rowAt TargetRow.key target e.key <;> simp

/-! ## One row is written -/

/-- The row as a write leaves it. -/
def rewritten (S : Setup A V O) (e : Expected A V) (r : TargetRow A V O) : TargetRow A V O :=
  if r.key = e.key then
    { r with value := e.value, marked := r.marked && decide (S.onDelete ≠ .soft) }
  else r

@[simp] theorem key_rewritten (r : TargetRow A V O) : (S.rewritten e r).key = r.key := by
  unfold rewritten
  split <;> rfl

@[simp] theorem place_rewritten (r : TargetRow A V O) : (S.rewritten e r).place = r.place := by
  unfold rewritten
  split <;> rfl

/-! An upsert rewrites the row of its key, or puts one behind all others. -/

theorem upsertRow_of_mem (usable : e.key.usable = true) (mem : e.key ∈ target.map (·.key)) :
    S.upsertRow target e = target.map (S.rewritten e) := by
  unfold upsertRow
  rw [if_pos ⟨usable, mem⟩]
  rfl

theorem upsertRow_of_not_mem (new : e.key ∉ target.map (·.key)) :
    S.upsertRow target e =
      target ++
        [{ key := e.key, value := e.value, marked := false, place := S.newPlace e target }] := by
  unfold upsertRow
  rw [if_neg fun h => new h.2]

theorem keys_upsertRow (usable : e.key.usable = true) :
    (S.upsertRow target e).map (·.key) =
      if e.key ∈ target.map (·.key) then target.map (·.key) else target.map (·.key) ++ [e.key] := by
  split
  case isTrue mem =>
    rw [upsertRow_of_mem usable mem, List.map_map]
    exact List.map_congr_left fun r _ => key_rewritten r
  case isFalse new =>
    rw [upsertRow_of_not_mem new]
    simp

theorem keysOnce_upsertRow (usable : e.key.usable = true) (once : KeysOnce TargetRow.key target) :
    KeysOnce TargetRow.key (S.upsertRow target e) := by
  unfold KeysOnce at *
  rw [keys_upsertRow usable]
  split
  case isTrue => exact once
  case isFalse new =>
    rw [List.filter_append]
    refine List.nodup_append.mpr ⟨once, (List.nodup_singleton e.key).filter _, ?_⟩
    intro a old b added same
    have named : b = e.key := by simpa using List.mem_of_mem_filter added
    rw [← named, ← same] at new
    exact new (List.mem_of_mem_filter old)

/-- A write leaves the rows of other keys alone. -/
theorem mem_upsertRow {r : TargetRow A V O} (other : r.key ≠ e.key) :
    r ∈ S.upsertRow target e ↔ r ∈ target := by
  unfold upsertRow
  split
  case isTrue =>
    change r ∈ target.map (S.rewritten e) ↔ r ∈ target
    constructor
    · intro mem
      obtain ⟨x, hx, rfl⟩ := List.mem_map.mp mem
      have kept : S.rewritten e x = x := if_neg (by simpa using other)
      rw [kept]
      exact hx
    · intro mem
      exact List.mem_map.mpr ⟨r, mem, if_neg other⟩
  case isFalse =>
    rw [List.mem_append, List.mem_singleton]
    constructor
    · rintro (mem | rfl)
      · exact mem
      · exact absurd rfl other
    · exact Or.inl

/-- What was written is there. -/
theorem wrong_upsertRow_self (usable : e.key.usable = true) (once : KeysOnce TargetRow.key target) :
    S.wrong (S.upsertRow target e) e = false := by
  have once' := keysOnce_upsertRow (S := S) usable once
  rw [wrong_eq_false]
  by_cases mem : e.key ∈ target.map (·.key)
  · obtain ⟨r, hr, named⟩ := List.mem_map.mp mem
    refine ⟨S.rewritten e r, (rowAt_eq_some once').mpr ⟨usable, ?_, by simpa using named⟩, ?_⟩
    · rw [upsertRow_of_mem usable mem]
      exact List.mem_map_of_mem hr
    · unfold rewritten
      rw [if_pos named]
      simp only [differs, isMarked, S.same_self]
      by_cases soft : S.onDelete = .soft <;> simp [soft]
  · let new : TargetRow A V O := ⟨e.key, e.value, false, S.newPlace e target⟩
    refine ⟨new, (rowAt_eq_some once').mpr ⟨usable, ?_, rfl⟩, ?_⟩
    · rw [upsertRow_of_not_mem mem]
      exact List.mem_append_right _ List.mem_cons_self
    · simp [new, differs, isMarked, S.same_self]

theorem places_upsertRow (own : S.ownOrder = true) (distinct : (target.map (·.place)).Nodup) :
    ((S.upsertRow target e).map (·.place)).Nodup := by
  unfold upsertRow
  split
  case isTrue =>
    change ((target.map (S.rewritten e)).map (·.place)).Nodup
    rw [List.map_map]
    have same : target.map ((·.place) ∘ S.rewritten e) = target.map (·.place) :=
      List.map_congr_left fun r _ => place_rewritten r
    rw [same]
    exact distinct
  case isFalse =>
    rw [List.map_append]
    refine List.nodup_append.mpr ⟨distinct, List.nodup_singleton _, ?_⟩
    intro a old b added same
    have named : b = S.newPlace e target := by simpa using added
    rw [same, named] at old
    exact S.newPlace_fresh own e target old

/-! ## Many rows are written -/

theorem keysOnce_putAll (usable : ∀ e ∈ es, e.key.usable = true)
    (once : KeysOnce TargetRow.key target) : KeysOnce TargetRow.key (S.putAll target es) := by
  induction es generalizing target with
  | nil => exact once
  | cons e es ih =>
    exact ih (fun x hx => usable x (List.mem_cons_of_mem _ hx))
      (keysOnce_upsertRow (usable e List.mem_cons_self) once)

theorem places_putAll (own : S.ownOrder = true) (distinct : (target.map (·.place)).Nodup) :
    ((S.putAll target es).map (·.place)).Nodup := by
  induction es generalizing target with
  | nil => exact distinct
  | cons e es ih => exact ih (places_upsertRow own distinct)

theorem mem_putAll {r : TargetRow A V O} (other : r.key ∉ es.map (·.key)) :
    r ∈ S.putAll target es ↔ r ∈ target := by
  induction es generalizing target with
  | nil => rfl
  | cons e es ih =>
    rw [List.map_cons, List.mem_cons, not_or] at other
    exact (ih other.2).trans (mem_upsertRow other.1)

theorem putAll_append (es fs : List (Expected A V)) :
    S.putAll target (es ++ fs) = S.putAll (S.putAll target es) fs := List.foldl_append

theorem rowAt_putAll (usable : ∀ e ∈ es, e.key.usable = true)
    (once : KeysOnce TargetRow.key target) {k : Key A} (other : k ∉ es.map (·.key)) :
    rowAt TargetRow.key (S.putAll target es) k = rowAt TargetRow.key target k := by
  refine Option.ext fun r => ?_
  rw [rowAt_eq_some (keysOnce_putAll usable once), rowAt_eq_some once]
  constructor
  · rintro ⟨hk, mem, rfl⟩
    exact ⟨hk, (mem_putAll other).mp mem, rfl⟩
  · rintro ⟨hk, mem, rfl⟩
    exact ⟨hk, (mem_putAll other).mpr mem, rfl⟩

theorem wrong_putAll_of_ne (usable : ∀ e ∈ es, e.key.usable = true)
    (once : KeysOnce TargetRow.key target) {x : Expected A V} (other : x.key ∉ es.map (·.key)) :
    S.wrong (S.putAll target es) x = S.wrong target x := by
  unfold wrong
  rw [rowAt_putAll usable once other]

theorem wrong_putAll (usable : ∀ e ∈ es, e.key.usable = true) (distinct : (es.map (·.key)).Nodup)
    (once : KeysOnce TargetRow.key target) {x : Expected A V} (mem : x ∈ es) :
    S.wrong (S.putAll target es) x = false := by
  induction es generalizing target with
  | nil => cases mem
  | cons e es ih =>
    obtain ⟨fresh, distinct⟩ := List.nodup_cons.mp distinct
    have first := usable e List.mem_cons_self
    have rest : ∀ y ∈ es, y.key.usable = true := fun y hy => usable y (List.mem_cons_of_mem _ hy)
    have once' := keysOnce_upsertRow (S := S) first once
    rcases List.mem_cons.mp mem with rfl | later
    · exact (wrong_putAll_of_ne rest once' fresh).trans (wrong_upsertRow_self first once)
    · exact ih rest distinct once' later

theorem keys_putAll (usable : ∀ e ∈ es, e.key.usable = true) (distinct : (es.map (·.key)).Nodup) :
    (S.putAll target es).map (·.key) =
      target.map (·.key) ++ (es.map (·.key)).filter fun k => k ∉ target.map (·.key) := by
  induction es generalizing target with
  | nil => simp [putAll]
  | cons e es ih =>
    obtain ⟨fresh, distinct⟩ := List.nodup_cons.mp distinct
    have step : (S.putAll (S.upsertRow target e) es).map (·.key) = _ :=
      ih (fun y hy => usable y (List.mem_cons_of_mem _ hy)) distinct
    have unfolded : S.putAll target (e :: es) = S.putAll (S.upsertRow target e) es := rfl
    rw [unfolded, step, keys_upsertRow (usable e List.mem_cons_self), List.map_cons,
      List.filter_cons]
    split
    case isTrue mem => simp [mem]
    case isFalse new =>
      have later : (es.map (·.key)).filter (fun k => k ∉ target.map (·.key) ++ [e.key]) =
          (es.map (·.key)).filter fun k => k ∉ target.map (·.key) := by
        refine List.filter_congr fun k hk => ?_
        have other : k ≠ e.key := by
          rintro rfl
          exact fresh hk
        simp [other]
      rw [later]
      simp [new]

end Setup

end Syncle.Verify
