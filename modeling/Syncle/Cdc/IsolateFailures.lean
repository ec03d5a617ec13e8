import Mathlib.Algebra.Order.Ring.Nat
import Mathlib.Data.List.Perm.Basic

/-!
# Poison-row isolation (`cdc/isolate-failures.ts`)

A batch that failed as a whole is split in halves, breadth first, until each failure is pinned to
a single row, or the search gives up and reports the failure as `systemic`.

The attempt function is the environment's: it threads a state `σ` (what has been written, what
will be answered next), so a result about *every* behaviour of the destination is a result about
every `attempt`.

Two facts are what callers use, and neither looks inside the loop again:

* `isolateFailures_invariant`: whatever an attempt keeps of the state and of the delivered rows,
  the search keeps.
* `isolateFailures_perm`: when the search does not give up, the delivered and the poisoned rows
  are the batch, row for row.
-/

namespace Syncle.Cdc

variable {σ R T : Type*}

/-- What one delivery attempt reported back. -/
structure IsolationAttempt (T : Type*) where
  ok : Bool
  error : Option String
  /-- fan-out targets that committed during this attempt -/
  succeededTargets : List T
  deriving DecidableEq

structure PoisonedRow (R T : Type*) where
  row : R
  error : String
  succeededTargets : List T
  deriving DecidableEq

structure IsolationResult (R T : Type*) where
  delivered : List R
  poisoned : List (PoisonedRow R T)
  systemic : Bool
  reason : Option String
  attempts : Nat
  deriving DecidableEq

structure IsolationOptions (T : Type*) where
  batchError : Option String
  alreadySucceeded : List T
  maxAttempts : Nat
  maxPoisoned : Nat
  failuresBeforeSystemic : Nat

/-- A group of rows waiting to be tried. The source holds its sibling by reference; here each
segment has a number, and names its sibling's. -/
structure Segment (R T : Type*) where
  id : Nat
  sibling : Nat
  rows : List R
  skip : List T
  knownBad : Bool

/-- `new Set([...skip, ...targets])`, in insertion order. -/
def addTargets [DecidableEq T] (skip targets : List T) : List T :=
  targets.foldl (fun s t => if t ∈ s then s else s ++ [t]) skip

/-- Split a group into its two halves, each aware of the other. -/
def split (id : Nat) (rows : List R) (skip : List T) : List (Segment R T) :=
  let mid := (rows.length + 1) / 2
  [{ id := id, sibling := id + 1, rows := rows.take mid, skip := skip, knownBad := false },
   { id := id + 1, sibling := id, rows := rows.drop mid, skip := skip, knownBad := false }]

/-- The loop's variables. -/
structure Search (σ R T : Type*) where
  queue : List (Segment R T)
  nextId : Nat
  successes : Nat
  result : IsolationResult R T
  world : σ

namespace Search

def giveUp (s : Search σ R T) (reason : String) : IsolationResult R T × σ :=
  ({ s.result with systemic := true, reason := some reason }, s.world)

/-- `queue.push(...split(rows, skip))`, on what is left of the queue. -/
def pushSplit (s : Search σ R T) (rest : List (Segment R T)) (rows : List R) (skip : List T) :
    Search σ R T :=
  { s with queue := rest ++ split s.nextId rows skip, nextId := s.nextId + 2 }

/-- A segment that went through: its rows are delivered, and its untried sibling is known bad. -/
def deliver (s : Search σ R T) (segment : Segment R T) (rest : List (Segment R T)) (w : σ) :
    Search σ R T :=
  { s with
    queue := rest.map fun x => if x.id = segment.sibling then { x with knownBad := true } else x
    successes := s.successes + 1
    result := { s.result with
      delivered := s.result.delivered ++ segment.rows
      attempts := s.result.attempts + 1 }
    world := w }

/-- A segment that failed: the attempt is counted, and the state moves on. -/
def failed (s : Search σ R T) (rest : List (Segment R T)) (w : σ) : Search σ R T :=
  { s with
    queue := rest
    result := { s.result with attempts := s.result.attempts + 1 }
    world := w }

/-- A row that failed on its own. -/
def poison (s : Search σ R T) (row : R) (error : String) (skip : List T) : Search σ R T :=
  { s with result := { s.result with
      poisoned := s.result.poisoned ++ [{ row := row, error := error, succeededTargets := skip }] } }

end Search

section

variable [DecidableEq T]
variable (attempt : σ → List R → List T → IsolationAttempt T × σ) (opts : IsolationOptions T)

/-- The `while` loop. `fuel` bounds its rounds; `isolateFailures` starts it with twice the size
of the batch, which `isolateLoop_perm` shows is never used up. -/
def isolateLoop : Nat → Search σ R T → IsolationResult R T × σ
  | 0, s => (s.result, s.world)
  | fuel + 1, s =>
    match s.queue with
    | [] => (s.result, s.world)
    | segment :: rest =>
      if segment.knownBad && decide (segment.rows.length > 1) then
        isolateLoop fuel (s.pushSplit rest segment.rows segment.skip)
      else if s.result.attempts ≥ opts.maxAttempts then
        s.giveUp s!"gave up isolating the failing rows after {s.result.attempts} attempts"
      else
        let (outcome, w) := attempt s.world segment.rows segment.skip
        if outcome.ok then
          isolateLoop fuel (s.deliver segment rest w)
        else
          let error := outcome.error.getD "delivery failed"
          let s := s.failed rest w
          if s.successes = 0 ∧ s.result.attempts ≥ opts.failuresBeforeSystemic then
            s.giveUp s!"every attempt failed ({s.result.attempts} in a row): {error}"
          else
            let skip := addTargets segment.skip outcome.succeededTargets
            match segment.rows with
            | [row] =>
              let s := s.poison row error skip
              if s.result.poisoned.length > opts.maxPoisoned then
                s.giveUp
                  s!"more than {opts.maxPoisoned} rows in one batch are failing: {error}"
              else isolateLoop fuel s
            | rows => isolateLoop fuel (s.pushSplit rest rows skip)

def isolateFailures (w : σ) (rows : List R) : IsolationResult R T × σ :=
  let result : IsolationResult R T :=
    { delivered := [], poisoned := [], systemic := false, reason := none, attempts := 0 }
  let baseSkip := addTargets [] opts.alreadySucceeded
  match rows with
  | [] => (result, w)
  -- a lone row cannot be narrowed any further: it is the failure
  | [row] =>
    ({ result with poisoned :=
        [{ row := row, error := opts.batchError.getD "delivery failed",
           succeededTargets := baseSkip }] }, w)
  | rows =>
    isolateLoop attempt opts (2 * rows.length)
      { queue := split 0 rows baseSkip, nextId := 2, successes := 0, result := result, world := w }

end

/-! ## What the search keeps -/

section Invariant

variable [DecidableEq T]
variable {attempt : σ → List R → List T → IsolationAttempt T × σ} {opts : IsolationOptions T}

/-- Whatever one attempt keeps of the state and the delivered rows, the loop keeps. -/
theorem isolateLoop_invariant {Inv : σ → List R → Prop}
    (keep : ∀ w d rows skip, Inv w d →
      Inv (attempt w rows skip).2 (if (attempt w rows skip).1.ok then d ++ rows else d)) :
    ∀ (fuel : Nat) (s : Search σ R T), Inv s.world s.result.delivered →
      Inv (isolateLoop attempt opts fuel s).2 (isolateLoop attempt opts fuel s).1.delivered := by
  intro fuel
  induction fuel with
  | zero => intro s h; exact h
  | succ fuel ih =>
    intro s h
    unfold isolateLoop
    split
    · exact h
    · next segment rest hq =>
      split
      · exact ih _ h
      · split
        · exact h
        · have hk := keep s.world s.result.delivered segment.rows segment.skip h
          dsimp only
          split
          · next hok =>
            rw [if_pos hok] at hk
            exact ih _ hk
          · next hok =>
            rw [if_neg hok] at hk
            split
            · exact hk
            · split
              · split
                · exact hk
                · exact ih _ hk
              · exact ih _ hk

theorem isolateFailures_invariant (opts : IsolationOptions T) (Inv : σ → List R → Prop)
    (keep : ∀ w d rows skip, Inv w d →
      Inv (attempt w rows skip).2 (if (attempt w rows skip).1.ok then d ++ rows else d))
    (w : σ) (rows : List R) (h : Inv w []) :
    Inv (isolateFailures attempt opts w rows).2 (isolateFailures attempt opts w rows).1.delivered := by
  unfold isolateFailures
  dsimp only
  split
  · exact h
  · exact h
  · exact isolateLoop_invariant keep _ _ h

end Invariant

/-! ## The loop ends, and no row is lost or doubled

The measure is what is still queued: a segment of `n` rows costs `2n - 1` rounds at most (itself,
and those of its halves). -/

/-- Rounds a queue can still take. -/
def cost (queue : List (Segment R T)) : Nat :=
  (queue.map fun x => 2 * x.rows.length - 1).sum

/-- The rows a queue still holds, in its order. -/
def queued (queue : List (Segment R T)) : List R :=
  queue.flatMap (·.rows)

@[simp] theorem cost_append (q₁ q₂ : List (Segment R T)) : cost (q₁ ++ q₂) = cost q₁ + cost q₂ := by
  simp [cost]

@[simp] theorem queued_append (q₁ q₂ : List (Segment R T)) :
    queued (q₁ ++ q₂) = queued q₁ ++ queued q₂ := by
  simp [queued]

theorem cost_split {rows : List R} (h : 1 < rows.length) (id : Nat) (skip : List T) :
    cost (split id rows skip) + 1 = 2 * rows.length - 1 := by
  simp [cost, split]
  omega

@[simp] theorem queued_split (id : Nat) (rows : List R) (skip : List T) :
    queued (split id rows skip) = rows := by
  simp [queued, split]

theorem split_ne_nil {rows : List R} (h : 1 < rows.length) (id : Nat) (skip : List T) :
    ∀ x ∈ split id rows skip, x.rows ≠ [] := by
  intro x hx
  simp only [split, List.mem_cons, List.not_mem_nil, or_false] at hx
  rcases hx with rfl | rfl <;> intro hnil <;> have hlen := congrArg List.length hnil
  · rw [List.length_take, List.length_nil] at hlen
    omega
  · rw [List.length_drop, List.length_nil] at hlen
    omega

/-- Marking a segment known bad changes neither its rows nor its cost. -/
theorem marked_map {β : Type*} (f : Segment R T → β)
    (hf : ∀ x : Segment R T, f { x with knownBad := true } = f x) (id : Nat)
    (q : List (Segment R T)) :
    (q.map fun x => if x.id = id then { x with knownBad := true } else x).map f = q.map f := by
  rw [List.map_map]
  apply List.map_congr_left
  intro x _
  simp only [Function.comp]
  split
  · exact hf x
  · rfl

/-- The rows accounted for: delivered, poisoned, and still queued. -/
def Search.rows (s : Search σ R T) : List R :=
  s.result.delivered ++ s.result.poisoned.map (·.row) ++ queued s.queue

section Coverage

variable [DecidableEq T]
variable {attempt : σ → List R → List T → IsolationAttempt T × σ} {opts : IsolationOptions T}

/-- What the rounds of the loop keep. `Inv` is kept from round to round. `Last` is what is left of
it where the search gives up, with a group in hand that is neither delivered nor poisoned. -/
structure Rounds (attempt : σ → List R → List T → IsolationAttempt T × σ)
    (opts : IsolationOptions T) (Inv Last : Search σ R T → Prop) : Prop where
  last {s : Search σ R T} : Inv s → Last s
  known {s : Search σ R T} {segment rest} : Inv s → s.queue = segment :: rest →
    1 < segment.rows.length → Inv (s.pushSplit rest segment.rows segment.skip)
  delivers {s : Search σ R T} {segment rest outcome w} : Inv s → s.queue = segment :: rest →
    s.result.attempts < opts.maxAttempts →
    attempt s.world segment.rows segment.skip = (outcome, w) → outcome.ok = true →
    Inv (s.deliver segment rest w)
  fails {s : Search σ R T} {segment rest outcome w} : Inv s → s.queue = segment :: rest →
    s.result.attempts < opts.maxAttempts →
    attempt s.world segment.rows segment.skip = (outcome, w) → outcome.ok = false →
    Last (s.failed rest w)
  poisons {s : Search σ R T} {segment rest outcome w row} (error : String) : Inv s →
    s.queue = segment :: rest → s.result.attempts < opts.maxAttempts →
    attempt s.world segment.rows segment.skip = (outcome, w) → outcome.ok = false →
    segment.rows = [row] →
    Inv ((s.failed rest w).poison row error (addTargets segment.skip outcome.succeededTargets))
  halves {s : Search σ R T} {segment rest outcome w} : Inv s → s.queue = segment :: rest →
    s.result.attempts < opts.maxAttempts →
    attempt s.world segment.rows segment.skip = (outcome, w) → outcome.ok = false →
    1 < segment.rows.length →
    Inv ((s.failed rest w).pushSplit rest segment.rows
      (addTargets segment.skip outcome.succeededTargets))

/-- How a search ends: in `t`, and with nothing left in its queue unless it gave up. -/
structure Ends (Inv Last : Search σ R T → Prop) (out : IsolationResult R T × σ)
    (t : Search σ R T) : Prop where
  last : Last t
  world : out.2 = t.world
  delivered : out.1.delivered = t.result.delivered
  poisoned : out.1.poisoned = t.result.poisoned
  attempts : out.1.attempts = t.result.attempts
  whole : out.1.systemic = false → Inv t ∧ t.queue = []

omit [DecidableEq T] in
theorem Ends.giveUp {Inv Last : Search σ R T → Prop} {t : Search σ R T} (last : Last t)
    (reason : String) : Ends Inv Last (t.giveUp reason) t :=
  { last := last, world := rfl, delivered := rfl, poisoned := rfl, attempts := rfl
    whole := fun h => by simp [Search.giveUp] at h }

/-- The fuel is enough for the queue. -/
structure Covers (fuel : Nat) (s : Search σ R T) : Prop where
  cost : cost s.queue ≤ fuel
  rows : ∀ x ∈ s.queue, x.rows ≠ []

section Covers

variable {fuel : Nat} {s : Search σ R T} {segment : Segment R T} {rest : List (Segment R T)}

omit [DecidableEq T]

theorem Covers.empty (covers : Covers 0 s) : s.queue = [] := by
  cases hs : s.queue with
  | nil => rfl
  | cons x rest =>
    have hx : x.rows.length ≠ 0 := by
      simpa using covers.rows x (by simp [hs])
    have hcost := covers.cost
    rw [hs] at hcost
    simp [Cdc.cost] at hcost
    omega

theorem Covers.head (covers : Covers fuel s) (hq : s.queue = segment :: rest) :
    segment.rows.length ≠ 0 := by
  simpa using covers.rows segment (by simp [hq])

/-- A group that is taken for good costs a round. -/
theorem Covers.drop (covers : Covers (fuel + 1) s) (hq : s.queue = segment :: rest)
    {t : Search σ R T} (ht : t.queue = rest) : Covers fuel t := by
  have hseg := covers.head hq
  have hc : 2 * segment.rows.length - 1 + Cdc.cost rest ≤ fuel + 1 := by
    simpa [hq, Cdc.cost] using covers.cost
  refine ⟨?_, fun x hx => covers.rows x ?_⟩
  · rw [ht]; omega
  · rw [ht] at hx
    simp [hq, hx]

theorem Covers.deliver (covers : Covers (fuel + 1) s) (hq : s.queue = segment :: rest) (w : σ) :
    Covers fuel (s.deliver segment rest w) := by
  have dropped : Covers fuel { s with queue := rest } := covers.drop hq rfl
  refine ⟨?_, fun x hx => ?_⟩
  · have hm := marked_map (fun x : Segment R T => 2 * x.rows.length - 1)
      (fun _ => rfl) segment.sibling rest
    simpa only [Search.deliver, Cdc.cost, hm] using dropped.cost
  · obtain ⟨y, hy, rfl⟩ := List.mem_map.mp hx
    split
    · exact dropped.rows y hy
    · exact dropped.rows y hy

/-- A split costs one round less than the group did. -/
theorem Covers.pushSplit (covers : Covers (fuel + 1) s) (hq : s.queue = segment :: rest)
    (hlen : 1 < segment.rows.length) (t : Search σ R T) (skip : List T) :
    Covers fuel (t.pushSplit rest segment.rows skip) := by
  have hc : 2 * segment.rows.length - 1 + Cdc.cost rest ≤ fuel + 1 := by
    simpa [hq, Cdc.cost] using covers.cost
  have hcs := cost_split hlen t.nextId skip
  refine ⟨?_, fun x hx => ?_⟩
  · simp [Search.pushSplit]; omega
  · rcases List.mem_append.mp hx with hx | hx
    · exact covers.rows x (by simp [hq, hx])
    · exact split_ne_nil hlen _ _ x hx

/-- A group of which neither one row nor none is left has two at least. -/
theorem Covers.more (covers : Covers fuel s) (hq : s.queue = segment :: rest)
    (hnot : ∀ row, segment.rows ≠ [row]) : 1 < segment.rows.length := by
  have hseg := covers.head hq
  match hr : segment.rows with
  | [] => simp [hr] at hseg
  | [row] => exact absurd hr (hnot row)
  | _ :: _ :: _ => simp

end Covers

omit [DecidableEq T] in
theorem many_of_known {segment : Segment R T}
    (hbad : (segment.knownBad && decide (segment.rows.length > 1)) = true) :
    1 < segment.rows.length := by
  simp only [Bool.and_eq_true, decide_eq_true_eq] at hbad
  exact hbad.2

/-- **The rule of the loop.** With fuel for the whole queue it ends, and what its rounds keep is
kept. -/
theorem isolateLoop_ends {Inv Last : Search σ R T → Prop} (rounds : Rounds attempt opts Inv Last) :
    ∀ (fuel : Nat) (s : Search σ R T), Covers fuel s → Inv s →
      ∃ t, Ends Inv Last (isolateLoop attempt opts fuel s) t := by
  intro fuel
  induction fuel with
  | zero =>
    intro s covers inv
    exact ⟨s, rounds.last inv, rfl, rfl, rfl, rfl, fun _ => ⟨inv, covers.empty⟩⟩
  | succ fuel ih =>
    intro s covers inv
    unfold isolateLoop
    split
    · next hq => exact ⟨s, rounds.last inv, rfl, rfl, rfl, rfl, fun _ => ⟨inv, hq⟩⟩
    · next segment rest hq =>
      split
      · next hbad =>
        have hlen := many_of_known hbad
        exact ih _ (covers.pushSplit hq hlen _ _) (rounds.known inv hq hlen)
      · split
        · exact ⟨s, .giveUp (rounds.last inv) _⟩
        · next hmax =>
          have budget : s.result.attempts < opts.maxAttempts := by omega
          cases made : attempt s.world segment.rows segment.skip with
          | mk outcome w =>
            dsimp only
            split
            · next hok => exact ih _ (covers.deliver hq w) (rounds.delivers inv hq budget made hok)
            · next hok =>
              have bad : outcome.ok = false := by simpa using hok
              split
              · exact ⟨_, .giveUp (rounds.fails inv hq budget made bad) _⟩
              · split
                · next row hrow =>
                  have keeps := rounds.poisons (outcome.error.getD "delivery failed") inv hq budget
                    made bad hrow
                  split
                  · exact ⟨_, .giveUp (rounds.last keeps) _⟩
                  · exact ih _ (covers.drop hq rfl) keeps
                · next hnot =>
                  have hlen := covers.more hq hnot
                  exact ih _ (covers.pushSplit hq hlen _ _)
                    (rounds.halves inv hq budget made bad hlen)

/-- A round more than the queue needs changes nothing: the `while` loop has ended by then. -/
theorem isolateLoop_succ : ∀ (fuel : Nat) (s : Search σ R T), Covers fuel s →
    isolateLoop attempt opts (fuel + 1) s = isolateLoop attempt opts fuel s := by
  intro fuel
  induction fuel with
  | zero =>
    intro s covers
    simp [isolateLoop, covers.empty]
  | succ fuel ih =>
    intro s covers
    cases hq : s.queue with
    | nil => simp [isolateLoop, hq]
    | cons segment rest =>
      rw [isolateLoop, isolateLoop]
      simp only [hq]
      split
      · next hbad => exact ih _ (covers.pushSplit hq (many_of_known hbad) _ _)
      · split
        · rfl
        · split
          · exact ih _ (covers.deliver hq _)
          · split
            · rfl
            · split
              · split
                · rfl
                · exact ih _ (covers.drop hq rfl)
              · next hnot => exact ih _ (covers.pushSplit hq (covers.more hq hnot) _ _)

theorem isolateLoop_more {fuel : Nat} {s : Search σ R T} (covers : Covers fuel s) (extra : Nat) :
    isolateLoop attempt opts (fuel + extra) s = isolateLoop attempt opts fuel s := by
  induction extra with
  | zero => rfl
  | succ extra ih =>
    rw [← Nat.add_assoc, isolateLoop_succ _ _ ⟨Nat.le_add_right_of_le covers.cost, covers.rows⟩, ih]

/-- No row is lost from one round to the next. -/
theorem rounds_perm (rows : List R) :
    Rounds attempt opts (fun s => s.rows.Perm rows) (fun _ => True) where
  last _ := trivial
  known {s segment rest} inv hq _ := by
    refine List.Perm.trans ?_ inv
    simp only [Search.rows, Search.pushSplit, hq, queued_append, queued_split]
    exact List.Perm.append_left _ List.perm_append_comm
  delivers {s segment rest _ w} inv hq _ _ _ := by
    have hm := marked_map (fun x : Segment R T => x.rows) (fun _ => rfl) segment.sibling rest
    refine List.Perm.trans ?_ inv
    simp only [Search.rows, Search.deliver, hq, queued, List.flatMap, hm, List.append_assoc]
    refine List.Perm.append_left _ ?_
    simp only [List.map_cons, List.flatten_cons]
    rw [← List.append_assoc, ← List.append_assoc]
    exact List.Perm.append_right _ List.perm_append_comm
  fails _ _ _ _ _ := trivial
  poisons {s segment rest _ w row} error inv hq _ _ _ hrow := by
    refine List.Perm.trans ?_ inv
    simp [Search.rows, Search.poison, Search.failed, hq, queued, hrow]
  halves {s segment rest _ w} inv hq _ _ _ _ := by
    refine List.Perm.trans ?_ inv
    simp only [Search.rows, Search.pushSplit, Search.failed, hq, queued_append, queued_split]
    exact List.Perm.append_left _ List.perm_append_comm

/-- **Nothing is lost on the way.** With fuel for the whole queue, a search that does not give
up ends with its rows split into delivered and poisoned. -/
theorem isolateLoop_perm (fuel : Nat) (s : Search σ R T) (covers : Covers fuel s)
    (hsys : (isolateLoop attempt opts fuel s).1.systemic = false) :
    ((isolateLoop attempt opts fuel s).1.delivered ++
      (isolateLoop attempt opts fuel s).1.poisoned.map (·.row)).Perm s.rows := by
  obtain ⟨t, ends⟩ := isolateLoop_ends (rounds_perm s.rows) fuel s covers (.refl _)
  obtain ⟨perm, empty⟩ := ends.whole hsys
  rw [ends.delivered, ends.poisoned]
  simpa [Search.rows, empty, queued] using perm

/-- The search of a batch of more than one row, as it begins. -/
def Search.start (opts : IsolationOptions T) (w : σ) (rows : List R) : Search σ R T :=
  { queue := split 0 rows (addTargets [] opts.alreadySucceeded)
    nextId := 2
    successes := 0
    result := { delivered := [], poisoned := [], systemic := false, reason := none, attempts := 0 }
    world := w }

theorem isolateFailures_many {rows : List R} (many : 1 < rows.length) (w : σ) :
    isolateFailures attempt opts w rows =
      isolateLoop attempt opts (2 * rows.length) (.start opts w rows) := by
  match rows with
  | [] => simp at many
  | [_] => simp at many
  | _ :: _ :: _ => rfl

theorem Covers.start {rows : List R} (many : 1 < rows.length) (w : σ) :
    Covers (2 * rows.length) (.start opts w rows : Search σ R T) := by
  have hcs := cost_split many 0 (addTargets [] opts.alreadySucceeded)
  refine ⟨?_, split_ne_nil many _ _⟩
  show Cdc.cost (split 0 rows _) ≤ _
  omega

/-- **A search that does not give up accounts for every row of the batch, once.** -/
theorem isolateFailures_perm (w : σ) (rows : List R)
    (h : (isolateFailures attempt opts w rows).1.systemic = false) :
    ((isolateFailures attempt opts w rows).1.delivered ++
      (isolateFailures attempt opts w rows).1.poisoned.map (·.row)).Perm rows := by
  by_cases many : 1 < rows.length
  · rw [isolateFailures_many many] at h ⊢
    refine (isolateLoop_perm _ _ (.start many w) h).trans ?_
    simp [Search.rows, Search.start]
  · match rows with
    | [] => simp [isolateFailures]
    | [_] => simp [isolateFailures]
    | _ :: _ :: _ => simp at many

/-- Membership, the form the pipeline uses. -/
theorem mem_of_isolateFailures
    (attempt : σ → List R → List T → IsolationAttempt T × σ) (opts : IsolationOptions T)
    (w : σ) (rows : List R) (h : (isolateFailures attempt opts w rows).1.systemic = false)
    {row : R} (hrow : row ∈ rows) :
    row ∈ (isolateFailures attempt opts w rows).1.delivered ∨
      row ∈ (isolateFailures attempt opts w rows).1.poisoned.map (·.row) := by
  exact List.mem_append.mp ((isolateFailures_perm w rows h).mem_iff.mpr hrow)

end Coverage

end Syncle.Cdc
