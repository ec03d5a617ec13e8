import Mathlib.Tactic.Common
import Mathlib.Logic.Function.Basic

/-!
# Replaying writes over a keyed state

A keyed state gives each key at most one value; a *write* puts a value under a key, removes
a key, or clears the state. `replay` folds a list of writes, in order.

The one fact everything below comes from: **a write decides the keys it touches, whatever was
there before** (`apply_of_touches`), and leaves the others alone (`apply_of_not_touches`). So at
a key, a replay is the image of the last write that touches it (`replay_of_last`), or what was
there to begin with when none does (`replay_untouched`).
-/

namespace Syncle.Lib

variable {K V : Type*}

/-- One write to a keyed state. -/
inductive Write (K V : Type*) where
  | upsert (key : K) (value : V)
  | remove (key : K)
  | clear
  deriving DecidableEq

namespace Write

/-- Does the write decide what is under `k`? -/
def touches (k : K) : Write K V → Prop
  | upsert key _ => key = k
  | remove key => key = k
  | clear => True

instance [DecidableEq K] (k : K) (w : Write K V) : Decidable (w.touches k) := by
  cases w <;> unfold touches <;> infer_instance

/-- What a write leaves under a key it touches. -/
def image : Write K V → Option V
  | upsert _ value => some value
  | remove _ => none
  | clear => none

variable [DecidableEq K]

def apply (w : Write K V) (d : K → Option V) : K → Option V :=
  match w with
  | upsert key value => Function.update d key (some value)
  | remove key => Function.update d key none
  | clear => fun _ => none

theorem apply_of_touches {k : K} {w : Write K V} (h : w.touches k) (d : K → Option V) :
    w.apply d k = w.image := by
  cases w with
  | upsert key value => obtain rfl : key = k := h; simp [apply, image]
  | remove key => obtain rfl : key = k := h; simp [apply, image]
  | clear => rfl

theorem apply_of_not_touches {k : K} {w : Write K V} (h : ¬ w.touches k) (d : K → Option V) :
    w.apply d k = d k := by
  cases w with
  | upsert key value => exact Function.update_of_ne (fun e => h e.symm) _ _
  | remove key => exact Function.update_of_ne (fun e => h e.symm) _ _
  | clear => exact absurd trivial h

end Write

variable [DecidableEq K]

/-- The state after a list of writes, in order. -/
def replay (d : K → Option V) (ws : List (Write K V)) : K → Option V :=
  ws.foldl (fun d w => w.apply d) d

@[simp] theorem replay_nil (d : K → Option V) : replay d [] = d := rfl

@[simp] theorem replay_cons (d : K → Option V) (w : Write K V) (ws : List (Write K V)) :
    replay d (w :: ws) = replay (w.apply d) ws := rfl

theorem replay_append (d : K → Option V) (ws vs : List (Write K V)) :
    replay d (ws ++ vs) = replay (replay d ws) vs := by
  simp [replay, List.foldl_append]

theorem replay_snoc (d : K → Option V) (ws : List (Write K V)) (w : Write K V) :
    replay d (ws ++ [w]) = w.apply (replay d ws) := by
  simp [replay_append]

/-- A key no write touches keeps what it had. -/
theorem replay_untouched {k : K} {ws : List (Write K V)} (h : ∀ w ∈ ws, ¬ w.touches k)
    (d : K → Option V) : replay d ws k = d k := by
  induction ws generalizing d with
  | nil => rfl
  | cons w ws ih =>
    rw [replay_cons, ih (fun v hv => h v (List.mem_cons_of_mem _ hv)),
      Write.apply_of_not_touches (h w List.mem_cons_self)]

/-- **The last write that touches a key decides it.** -/
theorem replay_of_last {k : K} {w : Write K V} {after : List (Write K V)} (hw : w.touches k)
    (hafter : ∀ v ∈ after, ¬ v.touches k) (d : K → Option V) (before : List (Write K V)) :
    replay d (before ++ w :: after) k = w.image := by
  rw [replay_append, replay_cons, replay_untouched hafter, Write.apply_of_touches hw]

/-- A key some write touches has a last write that does. -/
theorem exists_last_touching {k : K} {ws : List (Write K V)} (h : ∃ w ∈ ws, w.touches k) :
    ∃ before w after, ws = before ++ w :: after ∧ w.touches k ∧
      ∀ v ∈ after, ¬ v.touches k := by
  induction ws with
  | nil => simp at h
  | cons w ws ih =>
    by_cases later : ∃ v ∈ ws, v.touches k
    · obtain ⟨before, v, after, rfl, hv, hafter⟩ := ih later
      exact ⟨w :: before, v, after, rfl, hv, hafter⟩
    · have hw : w.touches k := by
        obtain ⟨v, hv, ht⟩ := h
        rcases List.mem_cons.mp hv with rfl | hv
        · exact ht
        · exact absurd ⟨v, hv, ht⟩ later
      exact ⟨[], w, ws, rfl, hw, fun v hv ht => later ⟨v, hv, ht⟩⟩

/-- Writes that leave the same under a key leave that, in whatever order they are made. -/
theorem replay_of_agree {k : K} {ws : List (Write K V)} {left : Option V}
    (some_ : ∃ w ∈ ws, w.touches k) (agree : ∀ w ∈ ws, w.touches k → w.image = left)
    (d : K → Option V) : replay d ws k = left := by
  obtain ⟨before, w, after, rfl, touches, quiet⟩ := exists_last_touching some_
  rw [replay_of_last touches quiet]
  exact agree w (List.mem_append_right _ List.mem_cons_self) touches

/-- What a state that began empty holds has been put there. -/
theorem mem_of_replay {k : K} {value : V} {ws : List (Write K V)}
    (holds : replay (fun _ => none) ws k = some value) : .upsert k value ∈ ws := by
  by_cases touched : ∃ w ∈ ws, w.touches k
  · obtain ⟨before, w, after, rfl, touches, quiet⟩ := exists_last_touching touched
    rw [replay_of_last touches quiet] at holds
    cases w with
    | upsert key image =>
      obtain rfl : key = k := touches
      obtain rfl := Option.some.inj holds
      exact List.mem_append_right _ List.mem_cons_self
    | remove | clear => cases holds
  · rw [replay_untouched fun w mem touches => touched ⟨w, mem, touches⟩] at holds
    cases holds

/-! ## The latest element of a kind -/

section Latest

variable {α : Type*} {f : α → Bool}

/-- The last element of `l` that meets `f`. -/
def latest (f : α → Bool) (l : List α) : Option α := (l.filter f).getLast?

theorem latest_eq_none {l : List α} : latest f l = none ↔ ∀ x ∈ l, f x = false := by
  simp [latest]

theorem mem_of_latest {l : List α} {x : α} (h : latest f l = some x) : x ∈ l ∧ f x = true :=
  List.mem_filter.mp (List.mem_of_getLast? h)

end Latest

end Syncle.Lib
