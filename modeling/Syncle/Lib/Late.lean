import Syncle.Lib.Replay

/-!
# Writes told late

A state is changed by writes, and each of them is told on as a write of another state: at once, or
with what is under its key at some later moment, which may be newer than the write itself. A write
may also not be told at all, where at such a moment nothing is under its key any more.

At the end the two states agree at every key, whatever the moments were (`told_of_lateAt`): after
the last write that touches a key, what is under it does not change, so every later moment sees what
is there at the end.
-/

namespace Syncle.Lib

variable {K V K' V' : Type*}

/-- A write, and what it is told as. -/
structure Telling (K V K' V' : Type*) where
  write : Write K V
  told : Option (Write K' V')

section

variable [DecidableEq K]

/-- The state after some tellings' writes. -/
def stateAfter (d : K → Option V) (tellings : List (Telling K V K' V')) : K → Option V :=
  replay d (tellings.map Telling.write)

/-- At key `k`, which lies at `place` in the other state, `e` is told as what is there at some moment
after it; `d` is the state after `e`. -/
def ToldAt (k : K) (place : K') (image : V → V') (d : K → Option V) (e : Telling K V K' V')
    (rest : List (Telling K V K' V')) : Prop :=
  match e.told with
  | some w => w.touches place ∧ ∃ m, w.image = (stateAfter d (rest.take m) k).map image
  | none => e.write.image ≠ none ∧ ∃ m, stateAfter d (rest.take m) k = none

/-- Every write that touches `k` is told late, and no other is told at its place. -/
def LateAt (k : K) (place : K') (image : V → V') : (K → Option V) → List (Telling K V K' V') → Prop
  | _, [] => True
  | d, e :: rest =>
    (e.write.touches k → ToldAt k place image (e.write.apply d) e rest) ∧
      (¬ e.write.touches k → ∀ w ∈ e.told, ¬ w.touches place) ∧
      LateAt k place image (e.write.apply d) rest

theorem stateAfter_quiet {k : K} {tellings : List (Telling K V K' V')}
    (quiet : ∀ e ∈ tellings, ¬ e.write.touches k) (d : K → Option V) (m : ℕ) :
    stateAfter d (tellings.take m) k = d k := by
  refine replay_untouched (fun w hw => ?_) d
  obtain ⟨e, he, rfl⟩ := List.mem_map.mp hw
  exact quiet e (List.mem_of_mem_take he)

variable [DecidableEq K']

/-- **Told late, the two states end alike.** -/
theorem told_of_lateAt {k : K} {place : K'} {image : V → V'} {d : K → Option V}
    {d' : K' → Option V'} {tellings : List (Telling K V K' V')}
    (late : LateAt k place image d tellings)
    (same : d' place = (d k).map image ∨ ∃ e ∈ tellings, e.write.touches k) :
    replay d' (tellings.filterMap Telling.told) place = (stateAfter d tellings k).map image := by
  induction tellings generalizing d d' with
  | nil =>
    rcases same with same | ⟨e, he, -⟩
    · exact same
    · cases he
  | cons e rest ih =>
    obtain ⟨touched, untouched, late⟩ := late
    have step : replay d' ((e :: rest).filterMap Telling.told) place =
        replay (match e.told with | some w => w.apply d' | none => d')
          (rest.filterMap Telling.told) place := by
      cases he : e.told <;> simp [he]
    rw [step]
    refine ih late ?_
    by_cases later : ∃ x ∈ rest, x.write.touches k
    · exact .inr later
    · -- nothing touches `k` any more: every later moment is the end
      refine .inl ?_
      have quiet : ∀ x ∈ rest, ¬ x.write.touches k := fun x hx ht => later ⟨x, hx, ht⟩
      have here (hn : ¬ e.write.touches k) : d' place = (d k).map image := by
        rcases same with same | ⟨x, hx, hxt⟩
        · exact same
        · rcases List.mem_cons.mp hx with rfl | hx
          · exact absurd hxt hn
          · exact absurd hxt (quiet x hx)
      show _ = (e.write.apply d k).map image
      cases he : e.told with
      | some w =>
        show w.apply d' place = _
        by_cases ht : e.write.touches k
        · have hat := touched ht
          simp only [ToldAt, he] at hat
          obtain ⟨hplace, m, himage⟩ := hat
          rw [stateAfter_quiet quiet] at himage
          rw [← himage, Write.apply_of_touches hplace]
        · rw [Write.apply_of_not_touches ht, ← here ht]
          exact Write.apply_of_not_touches (untouched ht w (by simp [he])) d'
      | none =>
        show d' place = _
        by_cases ht : e.write.touches k
        · have hat := touched ht
          simp only [ToldAt, he] at hat
          obtain ⟨hsome, m, hnone⟩ := hat
          rw [stateAfter_quiet quiet, Write.apply_of_touches ht] at hnone
          exact absurd hnone hsome
        · rw [Write.apply_of_not_touches ht]
          exact here ht

end

end Syncle.Lib
