import Mathlib.Data.List.Nodup
import Syncle.Cdc.Change
import Syncle.Lib.Run
import Syncle.Shape.Target

/-!
# Fan-out and its checkpoint (`deliver`, `targetKey`, `recordDelivery`)

A batch goes to every target of a bridge. Where one of them fails, the delivery has failed, and what
the others did is recorded with it by their keys, so that the retry leaves them out.

A target's key is its connection, database, schema and table. So long as no two targets of a bridge
share one, a failed delivery's record and the targets that are done are the same thing, all along the
attempts of the batch. Two targets that do share one (two Redis key templates over one connection,
say) are done together as soon as one of them is: `sound_iff` is exact.
-/

namespace Syncle.Shape

open Cdc Lib

/-- `targetKey` -/
def targetKey (t : DatabaseTarget) : String :=
  t.connectionId ++ "::" ++ t.database.getD "" ++ "::" ++ t.schema.getD "" ++ "::" ++ t.table

/-! ## One delivery -/

/-- What came of one target in a delivery. -/
inductive Turn where
  /-- `skipped (already written by a previous attempt)` -/
  | skipped
  | notApplied (summary : String)
  | written
  | failed (message : String)
  deriving DecidableEq

/-- One turn of `deliver`'s loop. `fate` is what its `try` comes to: none where it goes through, and
the target's transaction is committed; otherwise what it throws, and nothing of it is there. -/
def turn (op : Option CdcOperation) (skipTargets : List String) (target : DatabaseTarget)
    (fate : Option String) : Turn :=
  if skipTargets.contains (targetKey target) then .skipped
  else if op = some .delete ∧ target.keyColumns = [] then
    .notApplied "delete not applied (target has no key columns)"
  else if op = some .delete ∧ target.onDelete = .ignore then
    .notApplied "delete not applied (this target ignores deletes)"
  else if op = some .truncate ∧ target.onDelete = .ignore then
    .notApplied "truncate not applied (this target ignores deletes)"
  else if op = some .truncate ∧ target.onDelete = .soft then
    -- marking every row is not something to do on the strength of one event
    .notApplied
      "truncate not applied (this target soft-deletes; its rows were left as they are)"
  else
    match fate with
    | none => .written
    | some message => .failed message

def Turn.error : Turn → Option String
  | failed message => some message
  | _ => none

/-- Has the target, after it, committed the batch or found nothing in it to apply? -/
def Turn.settles : Turn → Bool
  | written | notApplied _ => true
  | skipped | failed _ => false

/-- `DeliveryOutcome`, as far as a retry reads it. -/
structure Outcome where
  /-- none for `success` -/
  error : Option String
  /-- none where the outcome does not know -/
  succeededTargets : Option (List String)
  deriving DecidableEq

def turns (op : Option CdcOperation) (skipTargets : List String) (targets : List DatabaseTarget)
    (fate : ℕ → Option String) : List (DatabaseTarget × Turn) :=
  targets.mapIdx fun i target => (target, turn op skipTargets target (fate i))

/-- `deliver` -/
def deliver (op : Option CdcOperation) (skipTargets : List String) (targets : List DatabaseTarget)
    (fate : ℕ → Option String) : Outcome :=
  let results := turns op skipTargets targets fate
  let error := results.findSome? fun r => r.2.error
  let succeeded := (results.filter fun r => r.2.error = none).map fun r => targetKey r.1
  -- the checkpoint only matters while the delivery is failed
  { error := error, succeededTargets := some (if error = none then [] else succeeded) }

/-! ## The attempts of one batch -/

/-- A batch and where it goes. `given` is the rows of the batch as a target is given them. -/
structure FanOut (R : Type*) where
  targets : List DatabaseTarget
  op : Option CdcOperation
  given : DatabaseTarget → List R

/-- A delivery as it is recorded, and what the targets have of the batch, by their places in the
list. -/
structure Batch (R : Type*) where
  /-- its status is `success`: it is not sent again -/
  settled : Bool
  /-- `succeededTargetsJson` -/
  checkpoint : List String
  /-- has the target at this place committed the batch, or found nothing in it to apply? -/
  done : ℕ → Bool
  /-- what an append-only target holds of it -/
  held : ℕ → List R

inductive Attempt where
  /-- `databaseSink.deliver`, and what each target's write comes to -/
  | deliver (fate : ℕ → Option String)
  /-- `failedBeforeSending`: no target is tried -/
  | unshaped (error : String)

namespace FanOut

variable {R : Type*} {w : FanOut R}

def fresh : Batch R := { settled := false, checkpoint := [], done := fun _ => false, held := fun _ => [] }

/-- `recordDelivery`: what an outcome does not know is kept. -/
def record (b : Batch R) (outcome : Outcome) : Batch R :=
  { b with
    settled := outcome.error = none
    checkpoint := outcome.succeededTargets.getD b.checkpoint }

/-- The targets, after their turns. -/
def apply (w : FanOut R) (b : Batch R) (results : List (DatabaseTarget × Turn)) : Batch R :=
  { b with
    done := fun i =>
      b.done i ||
        match results[i]? with
        | some (_, t) => t.settles
        | none => false
    held := fun i =>
      match results[i]? with
      | some (target, .written) => b.held i ++ w.given target
      | _ => b.held i }

def step (w : FanOut R) (b : Batch R) : Attempt → Option (Batch R)
  | .deliver fate =>
    if b.settled then none
    else
      some (record (w.apply b (turns w.op b.checkpoint w.targets fate))
        (Shape.deliver w.op b.checkpoint w.targets fate))
  | .unshaped error =>
    if b.settled then none else some (record b { error := some error, succeededTargets := none })

/-- Are rows written by this operation? -/
def writes (w : FanOut R) : Bool := w.op ≠ some .delete && w.op ≠ some .truncate

/-- What a retry leaves out is done, and a batch that is settled is in every append-only target
exactly once. -/
structure SoundAt (w : FanOut R) (b : Batch R) : Prop where
  skips : ∀ i target, w.targets[i]? = some target → b.settled = false →
    b.checkpoint.contains (targetKey target) = true → b.done i = true
  once : b.settled = true → w.writes = true → ∀ i target, w.targets[i]? = some target →
    target.writeMode = .insert → b.held i = w.given target

/-- …whatever the targets do in whichever attempts. -/
def Sound (w : FanOut R) : Prop :=
  ∀ attempts b, Run w.step anyStep fresh attempts b → w.SoundAt b

/-! ## Distinct keys -/

/-- The record of a failed delivery and the targets that are done are the same thing. -/
structure Inv (w : FanOut R) (b : Batch R) : Prop where
  recorded : b.settled = false → ∀ i target, w.targets[i]? = some target →
    (targetKey target ∈ b.checkpoint ↔ b.done i = true)
  all : b.settled = true → ∀ i target, w.targets[i]? = some target → b.done i = true
  held : w.writes = true → ∀ i target, w.targets[i]? = some target →
    b.held i = if b.done i then w.given target else []

theorem getElem?_turns {op : Option CdcOperation} {skip : List String}
    {targets : List DatabaseTarget} {fate : ℕ → Option String} {i : ℕ} {target : DatabaseTarget}
    (h : targets[i]? = some target) :
    (turns op skip targets fate)[i]? = some (target, turn op skip target (fate i)) := by
  simp [turns, List.getElem?_mapIdx, h]

theorem mem_turns {op : Option CdcOperation} {skip : List String} {targets : List DatabaseTarget}
    {fate : ℕ → Option String} {r : DatabaseTarget × Turn} (h : r ∈ turns op skip targets fate) :
    ∃ i, targets[i]? = some r.1 ∧ r.2 = turn op skip r.1 (fate i) := by
  obtain ⟨i, hi⟩ := List.mem_iff_getElem?.mp h
  simp only [turns, List.getElem?_mapIdx, Option.map_eq_some_iff] at hi
  obtain ⟨target, htarget, rfl⟩ := hi
  exact ⟨i, htarget, rfl⟩

theorem turn_skipped {op : Option CdcOperation} {skip : List String} {target : DatabaseTarget}
    {fate : Option String} (h : targetKey target ∈ skip) : turn op skip target fate = .skipped := by
  simp [turn, h]

theorem turn_ne_skipped {op : Option CdcOperation} {skip : List String} {target : DatabaseTarget}
    {fate : Option String} (h : targetKey target ∉ skip) : turn op skip target fate ≠ .skipped := by
  unfold turn
  rw [if_neg (by simpa using h)]
  split_ifs <;> try (intro same; cases same)
  cases fate <;> (intro same; cases same)

/-- Where rows are written, a target that is not skipped is tried. -/
theorem turn_writes {w : FanOut R} {skip : List String} {target : DatabaseTarget}
    {fate : Option String} (writes : w.writes = true) (summary : String) :
    turn w.op skip target fate ≠ .notApplied summary := by
  have notDelete : w.op ≠ some .delete := by
    intro same
    simp [FanOut.writes, same] at writes
  have notTruncate : w.op ≠ some .truncate := by
    intro same
    simp [FanOut.writes, same] at writes
  unfold turn
  simp only [notDelete, notTruncate, false_and, if_false]
  split_ifs
  · intro same; cases same
  · cases fate <;> (intro same; cases same)

theorem deliver_error {op : Option CdcOperation} {skip : List String}
    {targets : List DatabaseTarget} {fate : ℕ → Option String} :
    (Shape.deliver op skip targets fate).error = none ↔
      ∀ i target, targets[i]? = some target → (turn op skip target (fate i)).error = none := by
  simp only [Shape.deliver, List.findSome?_eq_none_iff]
  constructor
  · intro h i target htarget
    exact h (target, _) (List.mem_of_getElem? (getElem?_turns htarget))
  · intro h r hr
    obtain ⟨i, htarget, same⟩ := mem_turns hr
    rw [same]
    exact h i r.1 htarget

/-- A failed delivery records the keys of those that did not fail. -/
theorem mem_succeeded {op : Option CdcOperation} {skip : List String}
    {targets : List DatabaseTarget} {fate : ℕ → Option String} {b : Batch R} {key : String}
    (failed : (Shape.deliver op skip targets fate).error ≠ none) :
    key ∈ (record b (Shape.deliver op skip targets fate)).checkpoint ↔
      ∃ i target, targets[i]? = some target ∧ targetKey target = key ∧
        (turn op skip target (fate i)).error = none := by
  have failed' : ((turns op skip targets fate).findSome? fun r => r.2.error) ≠ none := failed
  simp only [record, Shape.deliver, Option.getD_some, if_neg failed', List.mem_map,
    List.mem_filter, decide_eq_true_eq]
  constructor
  · rintro ⟨r, ⟨hr, went⟩, rfl⟩
    obtain ⟨i, htarget, same⟩ := mem_turns hr
    exact ⟨i, r.1, htarget, rfl, by rw [← same]; exact went⟩
  · rintro ⟨i, target, htarget, rfl, went⟩
    exact ⟨(target, _), ⟨List.mem_of_getElem? (getElem?_turns htarget), went⟩, rfl⟩

/-- What a target's turn does to it. -/
theorem apply_done {b : Batch R} {skip : List String} {fate : ℕ → Option String} {i : ℕ}
    {target : DatabaseTarget} (h : w.targets[i]? = some target) :
    (w.apply b (turns w.op skip w.targets fate)).done i =
      (b.done i || (turn w.op skip target (fate i)).settles) := by
  simp only [apply, getElem?_turns h]

theorem apply_held {b : Batch R} {skip : List String} {fate : ℕ → Option String} {i : ℕ}
    {target : DatabaseTarget} (h : w.targets[i]? = some target) :
    (w.apply b (turns w.op skip w.targets fate)).held i =
      match turn w.op skip target (fate i) with
      | .written => b.held i ++ w.given target
      | _ => b.held i := by
  simp only [apply, getElem?_turns h]
  cases turn w.op skip target (fate i) <;> rfl

theorem fresh_inv : w.Inv fresh :=
  ⟨fun _ _ _ _ => by simp [fresh], nofun, fun _ _ _ _ => by simp [fresh]⟩

/-- An attempt keeps it, where no two targets share a key. -/
theorem Inv.step (distinct : (w.targets.map targetKey).Nodup) {b b' : Batch R} (h : w.Inv b)
    {attempt : Attempt} (move : w.step b attempt = some b') : w.Inv b' := by
  cases attempt with
  | unshaped error =>
    simp only [FanOut.step] at move
    split_ifs at move with settled
    obtain rfl := Option.some.inj move
    have open' : b.settled = false := by simpa using settled
    refine ⟨fun _ => h.recorded open', ?_, h.held⟩
    intro yes
    simp [record] at yes
  | deliver fate =>
    simp only [FanOut.step] at move
    split_ifs at move with settled
    obtain rfl := Option.some.inj move
    have open' : b.settled = false := by simpa using settled
    have recorded := h.recorded open'
    -- a turn goes through for a target that is done after it, and for no other
    have went : ∀ i target, w.targets[i]? = some target →
        ((turn w.op b.checkpoint target (fate i)).error = none ↔
          (w.apply b (turns w.op b.checkpoint w.targets fate)).done i = true) := by
      intro i target htarget
      rw [apply_done htarget]
      by_cases inn : targetKey target ∈ b.checkpoint
      · have done := (recorded i target htarget).mp inn
        simp [turn_skipped inn, done, Turn.error]
      · have notDone : b.done i = false := by
          by_contra yes
          exact inn ((recorded i target htarget).mpr (by simpa using yes))
        have tried : turn w.op b.checkpoint target (fate i) ≠ .skipped := turn_ne_skipped inn
        cases hturn : turn w.op b.checkpoint target (fate i) <;> simp_all [Turn.error, Turn.settles]
    refine ⟨?_, ?_, ?_⟩
    · intro failed i target htarget
      have failed : (Shape.deliver w.op b.checkpoint w.targets fate).error ≠ none := by
        simpa [record] using failed
      change targetKey target ∈
        (record _ (Shape.deliver w.op b.checkpoint w.targets fate)).checkpoint ↔ _
      rw [mem_succeeded failed]
      constructor
      · rintro ⟨j, other, hother, key, ok⟩
        have keyj : (w.targets.map targetKey)[j]? = some (targetKey target) := by
          rw [List.getElem?_map, hother, Option.map_some, key]
        have keyi : (w.targets.map targetKey)[i]? = some (targetKey target) := by
          rw [List.getElem?_map, htarget, Option.map_some]
        obtain ⟨bound, _⟩ := List.getElem?_eq_some_iff.mp keyj
        obtain rfl : j = i :=
          (List.getElem?_inj bound distinct).mp (keyj.trans keyi.symm)
        exact (went j other hother).mp ok
      · intro done
        exact ⟨i, target, htarget, rfl, (went i target htarget).mpr done⟩
    · intro ok i target htarget
      have ok : (Shape.deliver w.op b.checkpoint w.targets fate).error = none := by
        simpa [record] using ok
      exact (went i target htarget).mp (deliver_error.mp ok i target htarget)
    · intro writes i target htarget
      change (w.apply b _).held i = if (w.apply b _).done i then _ else _
      have before := h.held writes i target htarget
      rw [apply_held htarget, apply_done htarget]
      by_cases inn : targetKey target ∈ b.checkpoint
      · have done := (recorded i target htarget).mp inn
        simp [turn_skipped inn, done, before]
      · have notDone : b.done i = false := by
          by_contra yes
          exact inn ((recorded i target htarget).mpr (by simpa using yes))
        cases hturn : turn w.op b.checkpoint target (fate i) with
        | skipped => exact absurd hturn (turn_ne_skipped inn)
        | notApplied summary => exact absurd hturn (turn_writes writes summary)
        | written => simp [notDone, before, Turn.settles]
        | failed message => simp [notDone, before, Turn.settles]

theorem Inv.soundAt {b : Batch R} (h : w.Inv b) : w.SoundAt b := by
  refine ⟨?_, ?_⟩
  · intro i target htarget open' inn
    exact (h.recorded open' i target htarget).mp (by simpa using inn)
  · intro settled writes i target htarget _
    rw [h.held writes i target htarget, h.all settled i target htarget, if_pos rfl]

/-- Two targets with one key: the first commits, the second fails, and the retry takes the second
for done. -/
theorem not_sound_of_shared {targets : List DatabaseTarget} {i j : ℕ} {first second : DatabaseTarget}
    (hi : targets[i]? = some first) (hj : targets[j]? = some second) (other : i ≠ j)
    (shared : targetKey first = targetKey second) (given : DatabaseTarget → List R) :
    ¬ ({ targets := targets, op := none, given := given } : FanOut R).Sound := by
  intro sound
  let w : FanOut R := { targets := targets, op := none, given := given }
  let fate : ℕ → Option String := fun k => if k = j then some "the connection was lost" else none
  have tried : ∀ target fate, turn none [] target fate =
      match fate with
      | none => .written
      | some message => .failed message := by
    intro target fate
    simp [turn]
  have failed : (Shape.deliver none [] targets fate).error ≠ none := by
    intro ok
    have := deliver_error.mp ok j second hj
    simp [tried, fate, Turn.error] at this
  let b : Batch R :=
    record (w.apply fresh (turns none [] targets fate)) (Shape.deliver none [] targets fate)
  have run : Run w.step anyStep fresh [.deliver fate] b :=
    .cons trivial rfl (.nil b)
  have open' : b.settled = false := by
    simpa [b, record] using failed
  have listed : targetKey second ∈ b.checkpoint := by
    refine (mem_succeeded failed).mpr ⟨i, first, hi, shared, ?_⟩
    simp [tried, fate, other, Turn.error]
  have done := (sound _ b run).skips j second hj open' (by simpa using listed)
  change (w.apply fresh (turns w.op [] w.targets fate)).done j = true at done
  rw [apply_done (w := w) hj, tried] at done
  simp [fate, fresh, Turn.settles] at done

/-- **The checkpoint of a fan-out is sound**, for every operation and every sequence of attempts,
exactly where no two targets of the bridge have the same key. -/
theorem sound_iff (targets : List DatabaseTarget) :
    (∀ (op : Option CdcOperation) (given : DatabaseTarget → List R),
      ({ targets := targets, op := op, given := given } : FanOut R).Sound) ↔
      (targets.map targetKey).Nodup := by
  constructor
  · intro sound
    by_contra shared
    simp only [List.nodup_iff_getElem?_ne_getElem?, not_forall, not_not] at shared
    obtain ⟨i, j, less, bound, same⟩ := shared
    rw [List.length_map] at bound
    have bound' : i < targets.length := Nat.lt_trans less bound
    have hi := List.getElem?_eq_getElem bound'
    have hj := List.getElem?_eq_getElem bound
    rw [List.getElem?_map, List.getElem?_map, hi, hj] at same
    exact not_sound_of_shared hi hj (Nat.ne_of_lt less) (Option.some.inj same) (fun _ => [])
      (sound none fun _ => [])
  · intro distinct op given attempts b run
    refine Inv.soundAt (run.invariant fresh_inv ?_)
    intro s attempt s' _ h move
    exact h.step distinct move

/-! ## Two key templates over one connection -/

/-- A target in a Redis database, under keys of its own. -/
def keysOf (template column : String) : DatabaseTarget where
  connectionId := "cache"
  database := none
  schema := none
  table := "keys"
  writeMode := .upsert
  keyColumns := [column]
  mapping := []
  onDelete := .delete
  softDelete := none
  redis := some { keyTemplate := template }

/-- Both are accepted, and the batch is never written under the second's keys. -/
theorem not_sound :
    ¬ ∀ targets : List DatabaseTarget, (∀ t ∈ targets, t.accepted = true) →
      ∀ (op : Option CdcOperation) (given : DatabaseTarget → List Row),
        ({ targets := targets, op := op, given := given } : FanOut Row).Sound := by
  intro sound
  refine not_sound_of_shared (i := 0) (j := 1) (by rfl) (by rfl) Nat.zero_ne_one (by rfl)
    (fun _ => []) (sound [keysOf "user:{{id}}" "id", keysOf "email:{{email}}" "email"] ?_ none _)
  decide +kernel

end FanOut

end Syncle.Shape
