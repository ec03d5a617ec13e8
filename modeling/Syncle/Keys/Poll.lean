import Mathlib.Logic.Function.Basic
import Syncle.Keys.Requests
import Syncle.Lib.Filling
import Syncle.Lib.Run

/-!
# The keys of a polling job

`runPoll` sends the new rows of a page one at a time, each under a digest of the row's key and, of the
timestamp strategy only, of the tracked value it has (`idempotencyKey`). Which rows a page brings is
for its cursor to say; here it is any rows, in any order.

A row is recorded under the job's sequence number, which is not consumed by a row that stops the poll:
"the retried row lands in this same cell".

What a row is found by again is its `rowKey`, the JSON of its primary key, and under the timestamp
strategy the tracked value beside it. The two texts are told apart by the NUL between them, which no
JSON text has. The digest is assumed to have no two texts for one value.
-/

namespace Syncle.Keys

open Lib

/-- What the key of a row is made of. -/
structure Watched (R δ : Type*) where
  /-- `rowKey(row, pk)` -/
  rowKey : R → String
  /-- JSON writes a NUL as an escape -/
  rowKey_plain : ∀ row, '\x00' ∉ (rowKey row).toList
  /-- is the strategy `timestamp`? -/
  timestamp : Bool
  /-- the text of the tracked column's value: `toISOString` of a date, `String` of another -/
  tracked : R → String
  /-- `sha256`, the first 32 digits -/
  digest : String → δ
  digest_inj : Function.Injective digest

/-- `idempotencyKey` -/
def Watched.idempotencyKey {R δ : Type*} (src : Watched R δ) (row : R) : Key δ :=
  let salt := if src.timestamp then src.tracked row else ""
  .own (src.digest (src.rowKey row ++ "\x00" ++ salt))

namespace Watched

variable {R δ : Type*} (src : Watched R δ)

/-- The row has the primary key of the other and, if it is tracked by it, the timestamp. -/
def FoundAs (row old : R) : Prop :=
  src.rowKey row = src.rowKey old ∧ (src.timestamp = true → src.tracked row = src.tracked old)

instance (row old : R) : Decidable (src.FoundAs row old) :=
  inferInstanceAs (Decidable (_ ∧ (_ → _)))

theorem FoundAs.symm {row old : R} (found : src.FoundAs row old) : src.FoundAs old row :=
  ⟨found.1.symm, fun tracked => (found.2 tracked).symm⟩

/-- What has the key of a row was found by what the row was found by. -/
theorem foundAs_of_key {row old : R} (same : src.idempotencyKey row = src.idempotencyKey old) :
    src.FoundAs row old := by
  have texts := congrArg String.toList (src.digest_inj (Key.own.inj same))
  simp only [String.toList_append, List.append_assoc] at texts
  -- neither `rowKey` has a NUL, so each text is cut at its first
  let isNul (c : Char) : Prop := c = '\x00'
  have plain : ∀ r, ∀ c ∈ (src.rowKey r).toList, ¬ isNul c :=
    fun r c mem nul => src.rowKey_plain r (nul ▸ mem)
  obtain ⟨keys, salts⟩ :=
    append_cons_inj_of_free (show isNul '\x00' from rfl) (plain row) (plain old) texts
  refine ⟨String.toList_inj.mp keys, fun tracked => ?_⟩
  simp only [tracked, if_true] at salts
  exact String.toList_inj.mp salts

end Watched

/-- A recorded delivery of one row. -/
structure RowDelivery (R : Type*) where
  row : R
  failed : Bool
  deriving DecidableEq

/-- A poll that is under way: the rows of its page that are left, and its `seq`. -/
structure PollUnderway (R : Type*) where
  left : List R
  seq : Nat
  /-- the first of them is being sent -/
  sending : Bool := false
  deriving DecidableEq

/-- The job. `seen` and `cells` are history, which no code reads: the rows that were found, and the row
each number was last recorded as failed with. -/
structure Polling (R δ : Type*) where
  cursorOffset : Nat := 0
  deliveries : Nat → Option (RowDelivery R) := fun _ => none
  poll : Option (PollUnderway R) := none
  sent : List (Request δ R) := []
  seen : List R := []
  cells : Nat → Option R := fun _ => none

/-- What became of a row. -/
inductive RowOutcome where
  | delivered
  /-- it failed, and the poll stops -/
  | stopped
  /-- it failed, and was set aside -/
  | parked
  deriving DecidableEq

inductive PollEvent (R : Type*) where
  | begin
  /-- a page is read, which has these new rows -/
  | page (rows : List R)
  | send
  /-- the row is recorded -/
  | settle (outcome : RowOutcome)
  /-- the sequence is checkpointed -/
  | advance
  /-- the page is worked through and its cursor saved; a stop, an abort and a crash end the poll too -/
  | leave
  /-- `resendDelivery` -/
  | resend (sequence : Nat) (ok : Bool)
  deriving DecidableEq

namespace Polling

variable {R δ : Type*} (src : Watched R δ) (s : Polling R δ)

def send (p : PollUnderway R) (row : R) : Polling R δ :=
  { s with
    poll := some { p with sending := true }
    sent := s.sent ++ [{ key := src.idempotencyKey row, rows := [row] }] }

/-- `recordDelivery`, and the row is done with; one that stops the poll leaves `seq` unconsumed. -/
def settle (p : PollUnderway R) (row : R) (rest : List R) (outcome : RowOutcome) : Polling R δ :=
  let failed := decide (outcome ≠ .delivered)
  { s with
    deliveries := Function.update s.deliveries p.seq (some { row := row, failed := failed })
    poll := if outcome = .stopped then none else some { left := rest, seq := p.seq + 1 }
    cells := if failed then Function.update s.cells p.seq (some row) else s.cells }

def resend (sequence : Nat) (d : RowDelivery R) (ok : Bool) : Polling R δ :=
  { s with
    deliveries := Function.update s.deliveries sequence (some { d with failed := !ok })
    sent := s.sent ++ [{ key := .sequence sequence, rows := [d.row], resent := true }] }

def step : PollEvent R → Option (Polling R δ)
  | .begin =>
    if s.poll.isNone then some { s with poll := some { left := [], seq := s.cursorOffset } } else none
  | .page rows =>
    match s.poll with
    | some ⟨[], seq, _⟩ =>
      some { s with poll := some { left := rows, seq := seq }, seen := s.seen ++ rows }
    | _ => none
  | .send =>
    match s.poll with
    | some p => if p.sending then none else p.left.head?.map (s.send src p)
    | none => none
  | .settle outcome =>
    match s.poll with
    | some ⟨row :: rest, seq, true⟩ => some (s.settle ⟨row :: rest, seq, true⟩ row rest outcome)
    | _ => none
  | .advance => s.poll.map fun p => { s with cursorOffset := p.seq }
  | .leave => some { s with poll := none }
  | .resend sequence ok =>
    match s.poll, s.deliveries sequence with
    -- only while nothing is being polled, and only what has failed
    | none, some d => if d.failed then some (s.resend sequence d ok) else none
    | _, _ => none

/-- A step that keeps each key to one row: a row that is found by the primary key of another (and by its
timestamp) is that row, with nothing of it changed, and a number that a row has failed under is given to
no other that fails. -/
def keepsRows : PollEvent R → Prop
  | .page rows => ∀ row ∈ rows, ∀ old ∈ s.seen ++ rows, src.FoundAs row old → row = old
  | .settle outcome => outcome ≠ .delivered → ∀ p, s.poll = some p → ∀ row, p.left.head? = some row →
      ∀ old, s.cells p.seq = some old → row = old
  | _ => True

instance [DecidableEq R] (e : PollEvent R) : Decidable (s.keepsRows src e) :=
  match e with
  | .page rows => inferInstanceAs (Decidable (∀ row ∈ rows, ∀ old ∈ s.seen ++ rows,
      src.FoundAs row old → row = old))
  | .settle outcome => inferInstanceAs (Decidable (outcome ≠ .delivered → ∀ p, s.poll = some p →
      ∀ row, p.left.head? = some row → ∀ old, s.cells p.seq = some old → row = old))
  | .begin | .send | .advance | .leave | .resend _ _ => isTrue trivial

/-! ## The invariant -/

structure Inv : Prop where
  seen : ∀ row ∈ s.seen, ∀ old ∈ s.seen, src.FoundAs row old → row = old
  left : ∀ p, s.poll = some p → ∀ row ∈ p.left, row ∈ s.seen
  /-- what can be sent again is what its number failed with last -/
  failed : ∀ q d, s.deliveries q = some d → d.failed = true → s.cells q = some d.row
  sent : ∀ r ∈ s.sent,
    (∃ row ∈ s.seen, r = { key := src.idempotencyKey row, rows := [row] }) ∨
    ∃ q row, s.cells q = some row ∧ r = { key := .sequence q, rows := [row], resent := true }

variable {src : Watched R δ} {s s' : Polling R δ}

theorem Inv.onePayload (inv : s.Inv src) : OnePayload s.sent := by
  intro r mem r' mem'
  rcases inv.sent r mem with ⟨row, there, rfl⟩ | ⟨q, row, cell, rfl⟩ <;>
    rcases inv.sent r' mem' with ⟨row', there', rfl⟩ | ⟨q', row', cell', rfl⟩
  · constructor
    · intro same
      obtain rfl := inv.seen row there row' there' (src.foundAs_of_key same)
      rfl
    · rintro - - ⟨x, mem, mem'⟩
      obtain rfl := List.mem_singleton.mp mem
      obtain rfl := List.mem_singleton.mp mem'
      rfl
  · exact .of_apart nofun fun _ again => nomatch again
  · exact .of_apart nofun fun again => nomatch again
  · constructor
    · intro same
      obtain rfl := Key.sequence.inj same
      obtain rfl := Option.some.inj (cell.symm.trans cell')
      rfl
    · intro again
      cases again

theorem Inv.settle (inv : s.Inv src) {p : PollUnderway R} {row : R} {rest : List R}
    {outcome : RowOutcome} (at_ : s.poll = some p) (left : p.left = row :: rest)
    (kept : outcome ≠ .delivered → ∀ old, s.cells p.seq = some old → row = old) :
    (s.settle p row rest outcome).Inv src := by
  -- the row a number failed with stays the row it failed with
  have cells {q : Nat} {old : R} (cell : s.cells q = some old) :
      (s.settle p row rest outcome).cells q = some old := by
    simp only [Polling.settle]
    split
    · next failed =>
      rw [Function.update_apply]
      split
      · next same =>
        have new := kept (of_decide_eq_true failed) old (same ▸ cell)
        rw [new]
      · exact cell
    · exact cell
  constructor
  · exact inv.seen
  · intro p' is row' mem
    simp only [Polling.settle] at is
    split at is
    · cases is
    · obtain rfl := Option.some.inj is
      exact inv.left p at_ row' (left ▸ List.mem_cons_of_mem _ mem)
  · intro q d is failed
    simp only [Polling.settle, Function.update_apply] at is
    split at is
    · next same =>
      obtain rfl := Option.some.inj is
      simp only [Polling.settle, same]
      simp only at failed
      rw [if_pos failed, Function.update_self]
    · exact cells (inv.failed q d is failed)
  · intro r mem
    rcases inv.sent r mem with own | ⟨q, row', cell, is⟩
    · exact Or.inl own
    · exact Or.inr ⟨q, row', cells cell, is⟩

theorem Inv.resend (inv : s.Inv src) {q : Nat} {d : RowDelivery R} (at_ : s.deliveries q = some d)
    (failed : d.failed = true) (ok : Bool) : (s.resend q d ok).Inv src := by
  have cell := inv.failed q d at_ failed
  constructor
  · exact inv.seen
  · exact inv.left
  · intro q' d' is failed'
    simp only [Polling.resend, Function.update_apply] at is
    split at is
    · next same =>
      obtain rfl := Option.some.inj is
      rw [same]
      exact cell
    · exact inv.failed q' d' is failed'
  · intro r mem
    rcases List.mem_append.mp mem with old | new
    · exact inv.sent r old
    · obtain rfl := List.mem_singleton.mp new
      exact Or.inr ⟨q, d.row, cell, rfl⟩

theorem Inv.step (inv : s.Inv src) {e : PollEvent R} (keeps : s.keepsRows src e)
    (move : s.step src e = some s') : s'.Inv src := by
  cases e with
  | begin =>
    simp only [Polling.step] at move
    split at move
    · obtain rfl := Option.some.inj move
      refine ⟨inv.seen, fun p is row mem => ?_, inv.failed, inv.sent⟩
      obtain rfl := Option.some.inj is
      cases mem
    · cases move
  | page rows =>
    simp only [Polling.step] at move
    split at move
    · obtain rfl := Option.some.inj move
      refine ⟨fun row mem old mem' same => ?_, fun p is row mem => ?_, inv.failed, fun r mem => ?_⟩
      · rcases List.mem_append.mp mem with there | new
        · rcases List.mem_append.mp mem' with there' | new'
          · exact inv.seen row there old there' same
          · exact (keeps old new' row mem (Watched.FoundAs.symm src same)).symm
        · exact keeps row new old mem' same
      · obtain rfl := Option.some.inj is
        exact List.mem_append_right _ mem
      · rcases inv.sent r mem with ⟨row, there, is⟩ | again
        · exact Or.inl ⟨row, List.mem_append_left _ there, is⟩
        · exact Or.inr again
    · cases move
  | send =>
    simp only [Polling.step] at move
    split at move
    · next p at_ =>
      split at move
      · cases move
      · obtain ⟨row, first, rfl⟩ := Option.map_eq_some_iff.mp move
        have there : row ∈ s.seen := inv.left p at_ row (List.mem_of_mem_head? first)
        refine ⟨inv.seen, fun p' is => ?_, inv.failed, fun r mem => ?_⟩
        · obtain rfl := Option.some.inj is
          exact inv.left p at_
        · rcases List.mem_append.mp mem with old | new
          · exact inv.sent r old
          · obtain rfl := List.mem_singleton.mp new
            exact Or.inl ⟨row, there, rfl⟩
    · cases move
  | settle outcome =>
    simp only [Polling.step] at move
    split at move
    · next row rest seq at_ =>
      obtain rfl := Option.some.inj move
      exact inv.settle at_ rfl fun failed => keeps failed _ at_ row rfl
    · cases move
  | advance =>
    obtain ⟨p, at_, rfl⟩ := Option.map_eq_some_iff.mp move
    exact ⟨inv.seen, inv.left, inv.failed, inv.sent⟩
  | leave =>
    obtain rfl := Option.some.inj move
    exact ⟨inv.seen, nofun, inv.failed, inv.sent⟩
  | resend q ok =>
    simp only [Polling.step] at move
    split at move
    · next d idle at_ =>
      split at move
      · next failed =>
        obtain rfl := Option.some.inj move
        exact inv.resend at_ failed ok
      · cases move
    · cases move

/-- **While a row that is found again under its key has not changed, and a failed row's number goes to
no other failed row, a key of a polling job names one row.** -/
theorem poll_onePayload {es : List (PollEvent R)}
    (run : Run (Polling.step src) (Polling.keepsRows src) {} es s) : OnePayload s.sent := by
  have start : Inv src ({} : Polling R δ) := ⟨nofun, nofun, nofun, nofun⟩
  exact Inv.onePayload (run.invariant start fun _ _ _ keeps inv move => inv.step keeps move)

end Polling

end Syncle.Keys
