import Mathlib.Tactic.Common

/-!
# Entries that are delivered again

A store takes entries one at a time: `act d e` is the store `d` after the entry `e`. An entry may be
delivered early, out of turn or twice, as long as the whole sequence it belongs to follows. When
does none of that show at the end?

When the **later entry wins** (`LaterWins`): an entry is idempotent, and two stores that differ only
in what an entry decides go on to differ only in that, whatever other entries come in between. Then
the sequence absorbs everything of itself that was delivered before it (`LaterWins.absorb`).

`Patch` is the store this is used at: rows under keys, a write setting some of a row's columns and
leaving the others as they are.
-/

namespace Syncle.Lib

section Absorb

variable {σ α : Type*}

structure LaterWins (act : σ → α → σ) : Prop where
  again : ∀ d e, act (act d e) e = act d e
  between : ∀ d d' e x, act d e = act d' e → act (act d x) e = act (act d' x) e

namespace LaterWins

variable {act : σ → α → σ} (h : LaterWins act)

include h

/-- Stores that differ only in what an entry decides end alike, if the entry is still to come. -/
theorem foldl_eq {e : α} {b : List α} (he : e ∈ b) :
    ∀ {d d' : σ}, act d e = act d' e → b.foldl act d = b.foldl act d' := by
  induction b with
  | nil => cases he
  | cons x b ih =>
    intro d d' same
    rcases List.mem_cons.mp he with rfl | later
    · simp only [List.foldl_cons, same]
    · simpa using ih later (h.between d d' e x same)

/-- **A sequence absorbs what was delivered of it before.** -/
theorem absorb {s b : List α} (sub : ∀ e ∈ s, e ∈ b) (d : σ) :
    (s ++ b).foldl act d = b.foldl act d := by
  induction s generalizing d with
  | nil => rfl
  | cons e s ih =>
    simp only [List.cons_append, List.foldl_cons]
    rw [ih fun x hx => sub x (List.mem_cons_of_mem _ hx)]
    exact h.foldl_eq (sub e List.mem_cons_self) (h.again d e)

/-- A sequence that has been delivered has nothing left to do. -/
theorem settled (b : List α) (d : σ) : b.foldl act (b.foldl act d) = b.foldl act d := by
  rw [← List.foldl_append]
  exact h.absorb (fun _ hx => hx) d

end LaterWins

end Absorb

/-! ## Rows under keys -/

/-- One write to a store of rows under keys. -/
inductive Patch (K C V : Type*) where
  /-- sets the columns `row` gives a value, and makes the row if there is none -/
  | merge (key : K) (row : C → Option V)
  | remove (key : K)
  | clear
  | keep

namespace Patch

variable {K C V : Type*} [DecidableEq K]

/-- What a write makes of what is under `k`. -/
def under (k : K) : Patch K C V → Option (C → Option V) → Option (C → Option V)
  | merge key row, old => if key = k then some fun c => (row c).or (old.bind fun r => r c) else old
  | remove key, old => if key = k then none else old
  | clear, _ => none
  | keep, old => old

/-- The store after one write. -/
def apply (d : K → Option (C → Option V)) (p : Patch K C V) : K → Option (C → Option V) :=
  fun k => p.under k (d k)

theorem under_again (k : K) (p : Patch K C V) (old : Option (C → Option V)) :
    p.under k (p.under k old) = p.under k old := by
  cases p with
  | merge key row =>
    by_cases hk : key = k
    · simp only [under, hk, if_true, Option.bind_some, Option.some.injEq]
      funext c
      cases row c <;> simp
    · simp [under, hk]
  | remove key => by_cases hk : key = k <;> simp [under, hk]
  | clear => rfl
  | keep => rfl

theorem under_between (k : K) (e x : Patch K C V) {old old' : Option (C → Option V)}
    (same : e.under k old = e.under k old') :
    e.under k (x.under k old) = e.under k (x.under k old') := by
  cases e with
  | merge key row =>
    by_cases hk : key = k
    · simp only [under, hk, if_true, Option.some.injEq] at same
      have cell := fun c => congrFun same c
      cases x with
      | merge key' row' =>
        by_cases hk' : key' = k
        · simp only [under, hk, hk', if_true, Option.bind_some, Option.some.injEq]
          funext c
          have := cell c
          -- a column neither of the two sets is the same in both stores
          cases hrow : row c with
          | some v => simp
          | none => cases row' c <;> simp_all
        · simpa [under, hk, hk'] using same
      | remove key' =>
        by_cases hk' : key' = k
        · simp [under, hk']
        · simpa [under, hk, hk'] using same
      | clear => rfl
      | keep => simpa [under, hk] using same
    · have same : old = old' := by simpa [under, hk] using same
      rw [same]
  | remove key =>
    by_cases hk : key = k
    · simp [under, hk]
    · have same : old = old' := by simpa [under, hk] using same
      rw [same]
  | clear => rfl
  | keep => exact congrArg (fun o => keep.under k (x.under k o)) same

theorem laterWins : LaterWins (apply (K := K) (C := C) (V := V)) where
  again d e := by
    funext k
    exact under_again k e (d k)
  between d d' e x same := by
    funext k
    exact under_between k e x (congrFun same k)

end Patch

end Syncle.Lib
