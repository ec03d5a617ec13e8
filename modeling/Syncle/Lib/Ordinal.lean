import Mathlib.Data.List.Induction
import Mathlib.Order.Basic

/-!
# Numbering keys that come in order

A counter gives each key its ordinal among those equal to it. It remembers only the last key and its
number, and starts over at another: of keys that come in order that is how often the key has come up
before (`next_after`).
-/

namespace Syncle.Lib

structure Counter (α : Type*) where
  last : Option α
  n : ℕ
  deriving DecidableEq

namespace Counter

variable {α : Type*}

def fresh : Counter α := { last := none, n := 0 }

variable [DecidableEq α]

/-- The number of the key that comes next. -/
def next (c : Counter α) (key : α) : ℕ := if c.last = some key then c.n + 1 else 0

def take (c : Counter α) (key : α) : Counter α := { last := some key, n := c.next key }

/-- The counter, when these keys have come up. -/
def after (keys : List α) : Counter α := keys.foldl take fresh

@[simp] theorem after_nil : after ([] : List α) = fresh := rfl

@[simp] theorem after_append_singleton (keys : List α) (key : α) :
    after (keys ++ [key]) = (after keys).take key := by
  simp [after]

/-- **The ordinal of a key that is not before any of the others.** -/
theorem next_after [PartialOrder α] {keys : List α} {key : α} (sorted : keys.Pairwise (· ≤ ·))
    (le : ∀ x ∈ keys, x ≤ key) : (after keys).next key = keys.count key := by
  induction keys using List.reverseRecOn generalizing key with
  | nil => rfl
  | append_singleton keys last ih =>
    obtain ⟨front, -, below⟩ := List.pairwise_append.mp sorted
    have below : ∀ x ∈ keys, x ≤ last := fun x mem => below x mem last List.mem_cons_self
    rw [after_append_singleton, List.count_append, next, take]
    by_cases same : last = key
    · subst same
      simp [ih front below]
    · -- a key that is past the last one has not come up at all
      have new : key ∉ keys := by
        intro mem
        have last_le : last ≤ key := le last (List.mem_append_right _ List.mem_cons_self)
        exact same (le_antisymm last_le (below key mem))
      simp [same, List.count_eq_zero_of_not_mem new]

end Counter

end Syncle.Lib
