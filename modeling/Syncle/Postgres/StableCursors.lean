import Syncle.Postgres.SharedCursors

/-!
# One numbering for both paths

Whoever decodes a transaction, and however often it is sent, a change has the cursor that its place
in the transaction gives it, and what one stream hands over comes in the order of the cursors. A
shared slot keeps both on every run. A bridge's own keeps them as long as no connection ends between
the delete and the update of a row that moves, and as long as it takes as many positions for the
messages it does not capture as these say.
-/

namespace Syncle.Postgres

open Lib Cdc OwnSlot SharedSlot

variable {V : Type*} [DecidableEq V]

/-- The changes that were handed over in a run, of transactions whose messages are in order. -/
inductive ReadBy : List (Emission V) → Prop
  | own {bridge : Bridge} {start : Start V} {es : List (OwnSlot.Event V)} {s : Tracked V}
      (run : Run (Tracked.step bridge) KeepsWhole (Tracked.start start) es s)
      (inOrder : ∀ t ∈ s.world.wal, t.InOrder)
      (alike : ∀ t ∈ s.world.wal, bridge.CountsAlike t) : ReadBy s.emitted
  | shared {wal : List (Txn V)} {es : List (SharedSlot.Event V)} {s : Stream V}
      (run : Run Stream.step anyStep (Stream.start wal) es s)
      (inOrder : ∀ t ∈ s.wal, t.InOrder) : ReadBy s.emitted

/-- What a stream hands over is in the order of its cursors. -/
def Increasing (emitted : List (Emission V)) : Prop :=
  emitted.Pairwise fun a b => a.stream = b.stream → lsnAfter b.cursor (some a.cursor) = true

/-- A change has one cursor, by whichever run it was handed over. -/
def Agree (emitted emitted' : List (Emission V)) : Prop :=
  ∀ a ∈ emitted, ∀ b ∈ emitted', a.txn = b.txn → a.id = b.id → a.cursor = b.cursor

theorem ReadBy.numbered {emitted : List (Emission V)} (h : ReadBy emitted) :
    ∀ e ∈ emitted, numbered RowMessage.slots e.txn e.id = some e.cursor := by
  cases h with
  | own run inOrder alike => exact numbered_of_run run inOrder alike
  | shared run inOrder => exact SharedSlot.numbered_of_run run inOrder

/-- **The cursors are a total and stable numbering of the changes.** -/
theorem cursors_total_stable {emitted emitted' : List (Emission V)} (read : ReadBy emitted)
    (again : ReadBy emitted') : Increasing emitted ∧ Agree emitted emitted' := by
  constructor
  · cases read with
    | own run inOrder alike => exact increasing_of_run run inOrder
    | shared run inOrder => exact SharedSlot.increasing_of_run run
  · intro a memA b memB txn id
    have numA := read.numbered a memA
    have numB := again.numbered b memB
    rw [txn, id] at numA
    exact Option.some.inj (numA.symm.trans numB)

namespace MovedRow

open MovedAcrossReconnect

/-- The moving update, read by a slot of the bridge's own. -/
def ownEvents : List (OwnSlot.Event ℕ) :=
  [.commits moved, .walGrows 30, .send, .send, .send, .data, .data, .resolve, .resolve, .data]

/-- The same update, read for a member of a shared one, which is handed the delete by one reader
and the rest by another. -/
def sharedEvents : List (SharedSlot.Event ℕ) :=
  [.add "tasks" bridge none, .restart, .read 0, .data [], .data [], .serve [], .restart, .serve [],
    .read 0, .data [], .data [], .serve [], .serve [], .data []]

theorem inOrder_moved (commit end_ : ℕ) : { moved with commit, end_ }.InOrder :=
  List.pairwise_singleton _ _

/-- There is one message to count. -/
theorem alike_moved (commit end_ : ℕ) : bridge.CountsAlike { moved with commit, end_ } := by
  intro j k lt lsn msg msg' _ at_k
  have := (List.getElem?_eq_some_iff.mp at_k).1
  simp only [moved, List.length_cons, List.length_nil] at this
  omega

/-- Both paths hand over the delete and the update at the same two cursors. -/
theorem moved_numbered_alike : ∃ own shared : List (Emission ℕ),
    own.map (fun e => (e.id.old, e.cursor)) =
      [(true, .change 20 15 0), (false, .change 20 15 1)] ∧
    shared.map (fun e => (e.id.old, e.cursor)) =
      [(true, .change 20 15 0), (false, .change 20 15 1)] ∧
    Increasing own ∧ Agree own shared := by
  have inOrder := inOrder_moved 20 22
  have alike := alike_moved 20 22
  have own : Run (Tracked.step bridge) KeepsWhole (Tracked.start start) ownEvents _ :=
    run_iff_runEvents.mpr rfl
  have shared : Run Stream.step anyStep (Stream.start [moved]) sharedEvents _ := run_of_eval rfl
  have both := cursors_total_stable
    (.own own (fun t mem => List.mem_singleton.mp mem ▸ inOrder)
      fun t mem => List.mem_singleton.mp mem ▸ alike)
    (.shared shared fun t mem => List.mem_singleton.mp mem ▸ inOrder)
  exact ⟨_, _, rfl, rfl, both⟩

/-- A connection ends between the two: the handler goes on with the next connection's `txn`. The
update comes at the delete's cursor, and both are sent again at others. -/
theorem moved_renumbered : ∃ s, Run (Tracked.step bridge) anyStep (Tracked.start start) events s ∧
    (∀ t ∈ s.world.wal, t.InOrder ∧ bridge.CountsAlike t) ∧
    ¬ Increasing s.emitted ∧ ¬ Agree s.emitted s.emitted := by
  have run : Run (Tracked.step bridge) anyStep (Tracked.start start) events _ := run_of_eval rfl
  refine ⟨_, run, ?_, ?_, ?_⟩
  · intro t mem
    rcases List.mem_cons.mp mem with rfl | mem
    · exact ⟨inOrder_moved 20 22, alike_moved 20 22⟩
    · obtain rfl := List.mem_singleton.mp mem
      exact ⟨inOrder_moved 40 42, alike_moved 40 42⟩
  · -- the update is not after its delete
    intro increasing
    obtain ⟨later, -⟩ := List.pairwise_cons.mp increasing
    have after := later _ List.mem_cons_self rfl
    revert after
    decide
  · -- the delete that is sent again
    intro agree
    have same := agree _ List.mem_cons_self _
      (List.mem_cons_of_mem _ (List.mem_cons_of_mem _ List.mem_cons_self)) rfl rfl
    revert same
    decide

end MovedRow

end Syncle.Postgres
