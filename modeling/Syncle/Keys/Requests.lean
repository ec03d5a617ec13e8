import Mathlib.Tactic.Common

/-!
# The requests of a job, and the keys they carry

A request to an HTTP destination carries an `Idempotency-Key`: the job's id, and a name for the batch.
A replay names a batch by its sequence number, a live stream by the cursor it reaches to, a poll by a
digest of its row. What a user sends again, from what was captured of a failed delivery, is named by
the delivery's sequence number in every mode.
-/

namespace Syncle.Keys

/-- What is asked of a value, if there is one. -/
abbrev decidableSome {α : Type*} (o : Option α) (p : α → Prop) [DecidablePred p] :
    Decidable (∀ x, o = some x → p x) :=
  match o with
  | none => isTrue nofun
  | some x => decidable_of_iff (p x) ⟨fun h _ is => Option.some.inj is ▸ h, fun h => h x rfl⟩

/-- What follows the job's id. No cursor and no digest of the code is a bare number. -/
inductive Key (ν : Type*) where
  | sequence (n : Nat)
  | own (name : ν)
  deriving DecidableEq

structure Request (ν ρ : Type*) where
  key : Key ν
  /-- the rows of the source it is made of -/
  rows : List ρ
  /-- sent again on a user's request, from what was captured -/
  resent : Bool := false
  deriving DecidableEq

variable {ν ρ : Type*}

/-- One key, one payload; and what the job sends again goes under the key it had. -/
structure Request.Agrees (r r' : Request ν ρ) : Prop where
  payload : r.key = r'.key → r.rows = r'.rows
  again : r.resent = false → r'.resent = false → (∃ x ∈ r.rows, x ∈ r'.rows) → r.key = r'.key

def OnePayload (sent : List (Request ν ρ)) : Prop :=
  ∀ r ∈ sent, ∀ r' ∈ sent, r.Agrees r'

namespace Request

theorem Agrees.refl (r : Request ν ρ) : r.Agrees r := ⟨fun _ => rfl, fun _ _ _ => rfl⟩

theorem Agrees.symm {r r' : Request ν ρ} (agrees : r.Agrees r') : r'.Agrees r where
  payload same := (agrees.payload same.symm).symm
  again own own' := fun ⟨x, mem, mem'⟩ => (agrees.again own' own ⟨x, mem', mem⟩).symm

/-- Requests that have neither a key nor a row in common. -/
theorem Agrees.of_apart {r r' : Request ν ρ} (keys : r.key ≠ r'.key)
    (rows : r.resent = false → r'.resent = false → ∀ x ∈ r.rows, x ∉ r'.rows) : r.Agrees r' where
  payload same := absurd same keys
  again own own' := fun ⟨x, mem, mem'⟩ => absurd mem' (rows own own' x mem)

end Request

theorem OnePayload.nil : OnePayload ([] : List (Request ν ρ)) := by
  intro r mem
  cases mem

/-- One more request, which agrees with those before it. -/
theorem OnePayload.snoc {sent : List (Request ν ρ)} {r : Request ν ρ} (one : OnePayload sent)
    (agrees : ∀ r' ∈ sent, r.Agrees r') : OnePayload (sent ++ [r]) := by
  intro r₁ mem₁ r₂ mem₂
  simp only [List.mem_append, List.mem_singleton] at mem₁ mem₂
  rcases mem₁ with mem₁ | rfl <;> rcases mem₂ with mem₂ | rfl
  · exact one r₁ mem₁ r₂ mem₂
  · exact (agrees r₁ mem₁).symm
  · exact agrees r₂ mem₂
  · exact .refl _

end Syncle.Keys
