import Mathlib.Tactic.Common

/-!
# Labelled runs and their invariants

A system moves by *events*: `step s e` is the state event `e` leads to, and `none` says that
`e` cannot happen in `s`. Everything the environment decides (what a query answers, which of two
callbacks runs first, where a crash falls) is in the event, so a step is a function and a
run is a list.

Two readings of a run are kept, and `run_iff_runEvents` is the bridge between them:

* `runEvents` computes. It is what a concrete run is evaluated with.
* `Run step ok` is a derivation, one step at a time, in which every step meets a side condition
  `ok`, read at the state *before* the step. It is what an induction runs over.

A statement about "every reachable state" is a statement about the end of every `Run`: each
prefix of a run is a run of its own.
-/

namespace Syncle.Lib

variable {σ ε : Type*}

/-- The state a list of events leads to; `none` when one of them cannot happen. -/
def runEvents (step : σ → ε → Option σ) : σ → List ε → Option σ
  | s, [] => some s
  | s, e :: es => (step s e).bind fun t => runEvents step t es

/-- A run in which every step is allowed by `ok`, at the state the step starts from. -/
inductive Run (step : σ → ε → Option σ) (ok : σ → ε → Prop) : σ → List ε → σ → Prop
  | nil (s : σ) : Run step ok s [] s
  | cons {s t u : σ} {e : ε} {es : List ε} (allowed : ok s e) (move : step s e = some t)
      (rest : Run step ok t es u) : Run step ok s (e :: es) u

/-- The side condition that allows everything. -/
abbrev anyStep (_ : σ) (_ : ε) : Prop := True

section Derivations

variable {step : σ → ε → Option σ} {ok ok' : σ → ε → Prop}

theorem Run.append {s t u : σ} {es fs : List ε} (h₁ : Run step ok s es t)
    (h₂ : Run step ok t fs u) : Run step ok s (es ++ fs) u := by
  induction h₁ with
  | nil _ => exact h₂
  | cons allowed move _ ih => exact .cons allowed move (ih h₂)

theorem Run.snoc {s t u : σ} {es : List ε} {e : ε} (h : Run step ok s es t)
    (allowed : ok t e) (move : step t e = some u) : Run step ok s (es ++ [e]) u :=
  h.append (.cons allowed move (.nil u))

/-- A side condition that is about the events alone can be told from their list. -/
theorem Run.of_events {s t : σ} {es : List ε} (h : Run step ok s es t)
    (events : ∀ e ∈ es, ∀ s, ok' s e) : Run step ok' s es t := by
  induction h with
  | nil s => exact .nil s
  | cons _ move _ ih =>
    exact .cons (events _ List.mem_cons_self _) move
      (ih fun e mem => events e (List.mem_cons_of_mem _ mem))

/-- **The induction over a run.** What holds at the start and is kept by every allowed step
holds at the end. -/
theorem Run.invariant {Inv : σ → Prop} {s t : σ} {es : List ε} (h : Run step ok s es t)
    (start : Inv s)
    (keep : ∀ s e s', ok s e → Inv s → step s e = some s' → Inv s') : Inv t := by
  induction h with
  | nil _ => exact start
  | cons allowed move _ ih => exact ih (keep _ _ _ allowed start move)

/-- What the steps keep may be asked of each of them. -/
theorem Run.also {Inv : σ → Prop} {s t : σ} {es : List ε} (h : Run step ok s es t)
    (start : Inv s)
    (keep : ∀ s e s', ok s e → Inv s → step s e = some s' → Inv s') :
    Run step (fun s e => ok s e ∧ Inv s) s es t := by
  induction h with
  | nil s => exact .nil s
  | cons allowed move _ ih =>
    exact .cons ⟨allowed, start⟩ move (ih (keep _ _ _ allowed start move))

/-- What every allowed step relates (in a state that meets the invariant) is related across
the whole run. -/
theorem Run.related {s t : σ} {es : List ε} (h : Run step ok s es t) (Inv : σ → Prop)
    (R : σ → σ → Prop) (start : Inv s)
    (keep : ∀ s e s', ok s e → Inv s → step s e = some s' → Inv s')
    (refl : ∀ s, R s s) (trans : ∀ s t u, R s t → R t u → R s u)
    (rel : ∀ s e s', ok s e → Inv s → step s e = some s' → R s s') : R s t := by
  induction h with
  | nil s => exact refl s
  | cons allowed move _ ih =>
    exact trans _ _ _ (rel _ _ _ allowed start move) (ih (keep _ _ _ allowed start move))

end Derivations

/-- `step`, held to the side condition. -/
def guarded (step : σ → ε → Option σ) (ok : σ → ε → Prop) [∀ s e, Decidable (ok s e)]
    (s : σ) (e : ε) : Option σ :=
  if ok s e then step s e else none

/-- The derivation and the computation are the same runs. -/
theorem run_iff_runEvents {step : σ → ε → Option σ} {ok : σ → ε → Prop}
    [∀ s e, Decidable (ok s e)] {s t : σ} {es : List ε} :
    Run step ok s es t ↔ runEvents (guarded step ok) s es = some t := by
  constructor
  · intro h
    induction h with
    | nil _ => rfl
    | cons allowed move _ ih => simpa [runEvents, guarded, allowed, move] using ih
  · intro h
    induction es generalizing s with
    | nil =>
      obtain rfl : s = t := by simpa [runEvents] using h
      exact .nil s
    | cons e es ih =>
      simp only [runEvents, guarded, Option.bind_eq_some_iff] at h
      obtain ⟨u, hu, rest⟩ := h
      split at hu
      · next allowed => exact .cons allowed hu (ih rest)
      · cases hu

/-- A concrete run, from evaluating it. -/
theorem run_of_eval {step : σ → ε → Option σ} {s t : σ} {es : List ε}
    (h : runEvents step s es = some t) : Run step anyStep s es t := by
  rw [run_iff_runEvents]
  have unguarded : guarded step anyStep = step := by
    funext s e
    simp [guarded]
  rwa [unguarded]

end Syncle.Lib
