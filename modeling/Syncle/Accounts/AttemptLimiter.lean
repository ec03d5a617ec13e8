import Syncle.Lib.OrderedMap

/-!
# The attempt limiter (`attempt-limiter.ts`)

After `maxFailures` consecutive failures of a key, further attempts are rejected for a time that
doubles with every failure after. The table is bounded: what is not locked is forgotten first, then
the oldest.
-/

namespace Syncle.Accounts

open Lib

/-- What a limiter is made with, and its defaults. -/
structure AttemptLimiter where
  maxFailures : ℕ := 5
  baseLockMs : ℕ := 30000
  maxLockMs : ℕ := 15 * 60000
  maxKeys : ℕ := 10000

/-- What is remembered of a key. -/
structure Attempts where
  failures : ℕ
  lockedUntil : ℕ
  deriving DecidableEq

abbrev AttemptTable := OrderedMap String Attempts

/-- ms until the key may try again; 0 when it is free to proceed -/
def retryAfterMs (entries : AttemptTable) (key : String) (now : ℕ) : ℕ :=
  match entries.get? key with
  | none => 0
  | some e => if e.lockedUntil > now then e.lockedUntil - now else 0

/-- The entries but for some. -/
def AttemptTable.without (entries : AttemptTable) (gone : List String) : AttemptTable :=
  entries.filter fun key => key ∉ gone

namespace AttemptLimiter

variable (l : AttemptLimiter)

/-- How long a failure locks that is `past` failures past the threshold. -/
def lock (past : ℕ) : ℕ := min (l.baseLockMs * 2 ^ past) l.maxLockMs

/-- `forget`, the first loop: what is not locked right now, as many as have to go. -/
def forgetUnlocked (entries : AttemptTable) (now : ℕ) : AttemptTable :=
  let unlocked := (entries.entries.filter fun e => e.2.lockedUntil ≤ now).map Prod.fst
  entries.without (unlocked.take (entries.size - l.maxKeys))

/-- …and the second: the oldest. -/
def forgetOldest (entries : AttemptTable) : AttemptTable :=
  entries.without (entries.keys.take (entries.size - l.maxKeys))

def forget (entries : AttemptTable) (now : ℕ) : AttemptTable :=
  l.forgetOldest (l.forgetUnlocked entries now)

/-- A key's entry after another failure. -/
def failed (entries : AttemptTable) (key : String) (now : ℕ) : Attempts :=
  let e := (entries.get? key).getD { failures := 0, lockedUntil := 0 }
  let failures := e.failures + 1
  { failures := failures
    lockedUntil :=
      if failures ≥ l.maxFailures then now + l.lock (failures - l.maxFailures) else e.lockedUntil }

def fail (entries : AttemptTable) (key : String) (now : ℕ) : AttemptTable :=
  let inserted := (entries.without [key]).set key (l.failed entries key now)
  if inserted.size > l.maxKeys then l.forget inserted now else inserted

end AttemptLimiter

def succeed (entries : AttemptTable) (key : String) : AttemptTable := entries.without [key]

/-- The failures of a key in a row. -/
def failuresOf (entries : AttemptTable) (key : String) : ℕ :=
  ((entries.get? key).map (·.failures)).getD 0

/-! ## The table -/

namespace AttemptLimiter

variable {l : AttemptLimiter} {entries : AttemptTable} {key a : String} {now : ℕ}

theorem get?_without (gone : List String) :
    (entries.without gone).get? a = if a ∈ gone then none else entries.get? a := by
  rw [AttemptTable.without, OrderedMap.get?_filter]
  by_cases h : a ∈ gone <;> simp [h]

/-- Forgetting makes no entry. -/
theorem get?_forget {e : Attempts} (h : (l.forget entries now).get? a = some e) :
    entries.get? a = some e := by
  unfold forget forgetOldest forgetUnlocked at h
  rw [get?_without] at h
  split at h
  · cases h
  · rw [get?_without] at h
    split at h
    · cases h
    · exact h

theorem get?_inserted (e : Attempts) :
    ((entries.without [key]).set key e).get? a = if a = key then some e else entries.get? a := by
  rw [OrderedMap.get?_set, get?_without]
  by_cases h : a = key <;> simp [h]

/-- A failure leaves an entry for its key, or one that was there. -/
theorem get?_fail_cases {e : Attempts} (h : (l.fail entries key now).get? a = some e) :
    a = key ∨ entries.get? a = some e := by
  have inserted : ((entries.without [key]).set key (l.failed entries key now)).get? a =
      some e := by
    unfold fail at h
    dsimp only at h
    split at h
    · exact get?_forget h
    · exact h
  rw [get?_inserted] at inserted
  by_cases same : a = key
  · exact .inl same
  · rw [if_neg same] at inserted
    exact .inr inserted

/-- Is there room for a failure of the key, with nothing forgotten? -/
def hasRoom (l : AttemptLimiter) (entries : AttemptTable) (key : String) : Bool :=
  decide (((entries.without [key]).size + 1) ≤ l.maxKeys)

/-- With room for it, a failure changes the entry of its key alone. -/
theorem get?_fail (room : l.hasRoom entries key = true) (a : String) :
    (l.fail entries key now).get? a =
      if a = key then some (l.failed entries key now) else entries.get? a := by
  have fits : ((entries.without [key]).set key (l.failed entries key now)).size ≤ l.maxKeys := by
    have absent : key ∉ (entries.without [key]).keys := by
      rw [← OrderedMap.get?_eq_none, get?_without]
      simp
    rw [OrderedMap.size, OrderedMap.set_of_not_mem absent, List.length_append]
    exact of_decide_eq_true room
  unfold fail
  dsimp only
  rw [if_neg (by omega)]
  exact get?_inserted _

theorem get?_succeed :
    (succeed entries key).get? a = if a = key then none else entries.get? a := by
  unfold succeed
  rw [get?_without]
  simp

theorem failed_failures (entries : AttemptTable) (key : String) (now : ℕ) :
    (l.failed entries key now).failures = failuresOf entries key + 1 := by
  unfold failed failuresOf
  cases entries.get? key <;> rfl

/-- A key is not locked where it may try. -/
theorem lockedUntil_le {e : Attempts} (h : retryAfterMs entries key now = 0)
    (has : entries.get? key = some e) : e.lockedUntil ≤ now := by
  unfold retryAfterMs at h
  rw [has] at h
  dsimp only at h
  split at h <;> omega

theorem get?_of_locked (h : 0 < retryAfterMs entries key now) :
    ∃ e, entries.get? key = some e := by
  unfold retryAfterMs at h
  split at h
  · omega
  · next e has => exact ⟨e, has⟩

/-! ## How much it allows -/

theorem lock_mono {i j : ℕ} (h : i ≤ j) : l.lock i ≤ l.lock j := by
  unfold lock
  have : l.baseLockMs * 2 ^ i ≤ l.baseLockMs * 2 ^ j :=
    Nat.mul_le_mul_left _ (Nat.pow_le_pow_right (by decide) h)
  omega

/-- How long it takes until `n` more attempts are allowed than the threshold: a lock for each. -/
def refill (l : AttemptLimiter) : ℕ → ℕ
  | 0 => 0
  | n + 1 => l.refill n + l.lock n

/-- Each takes the shortest lock at least. -/
theorem mul_le_refill (shortest : l.baseLockMs ≤ l.maxLockMs) (n : ℕ) :
    l.baseLockMs * n ≤ l.refill n := by
  induction n with
  | zero => exact Nat.zero_le _
  | succ n ih =>
    have : l.baseLockMs ≤ l.lock n := by
      have : l.baseLockMs * 1 ≤ l.baseLockMs * 2 ^ n :=
        Nat.mul_le_mul_left _ Nat.one_le_two_pow
      unfold lock
      omega
    rw [refill, Nat.mul_succ]
    omega

/-- The burst, and one for each time the shortest lock fits in. -/
theorem le_allowance {n len : ℕ} (pos : 0 < l.baseLockMs) (shortest : l.baseLockMs ≤ l.maxLockMs)
    (h : l.refill (n - l.maxFailures) ≤ len) : n ≤ l.maxFailures + len / l.baseLockMs := by
  have waited := (mul_le_refill shortest (n - l.maxFailures)).trans h
  have : n - l.maxFailures ≤ len / l.baseLockMs :=
    (Nat.le_div_iff_mul_le pos).mpr (by rwa [Nat.mul_comm])
  omega

end AttemptLimiter

end Syncle.Accounts
