import Syncle.Postgres.Numbering
import Syncle.Postgres.OwnSlotSafe

/-!
# The cursors of a stream of a bridge's own

A run of the stream, with what it has handed over as changes. While no connection ends between the
delete and the update of a row that moves, `txn` is that of the transaction whose message is being
handled, and counts the positions its messages have taken (`Stands`).
-/

namespace Syncle.Postgres

open Lib Cdc OwnSlot

variable {V : Type*}

/-- A change that was handed over. -/
structure Emission (V : Type*) where
  /-- the connection it came over, or the member it was handed to -/
  stream : ℕ
  txn : Txn V
  /-- where the transaction is in the log -/
  index : ℕ
  id : ChangeId
  cursor : PgCursor

/-- The stream, and what it has handed over. -/
structure Tracked (V : Type*) where
  world : World V
  emitted : List (Emission V)

/-- Which change a row message's handler hands over first. -/
def Decoded.first {R : Type*} (row : ℕ) : Decoded R → Option ChangeId
  | .hand _ _ | .reserve _ => some { row := row, old := false }
  | .move _ _ => some { row := row, old := true }
  | .nothing | .skip | .notice => none

variable [DecidableEq V]

/-- The change that a step hands over: the transaction, where it is, and which of its changes. -/
def label (bridge : Bridge) (w : World V) : OwnSlot.Event V → Option (Txn V × ℕ × ChangeId)
  | .data =>
    (w.wal[w.handled.txn]?).bind fun t =>
      match w.handled.messages with
      | 0 => none
      | k + 1 =>
        (t.rows[k]?).bind fun row =>
          ((bridge.decode row.2).first k).map fun id => (t, w.handled.txn, id)
  | .resolve =>
    (w.waiters.head?.bind Waiter.rest).bind fun rest =>
      (w.wal[rest.id.txn]?).map fun t =>
        (t, rest.id.txn, { row := rest.id.row, old := false })
  | _ => none

/-- The last thing handed over, as a change. -/
def emission (w : World V) (label : Option (Txn V × ℕ × ChangeId)) : Option (Emission V) :=
  label.bind fun (txn, index, id) =>
    w.items.getLast?.map fun handed =>
      { stream := handed.generation, txn := txn, index := index, id := id
        cursor := handed.item.cursor }

def Tracked.step (bridge : Bridge) (s : Tracked V) (e : OwnSlot.Event V) : Option (Tracked V) :=
  (OwnSlot.step bridge s.world e).map fun w =>
    { world := w, emitted := s.emitted ++ (emission w (label bridge s.world e)).toList }

def Tracked.start (start : Start V) : Tracked V := { world := start.world, emitted := [] }

/-- The updates of rows that move whose deletes are with the pipeline. -/
def OwnSlot.World.halves (w : World V) : List (Rest V) := w.waiters.filterMap Waiter.rest

/-- What is asked: that no connection ends while one of them is. -/
def KeepsWhole (s : Tracked V) : OwnSlot.Event V → Prop
  | .reconnect => ∀ waiter ∈ s.world.waiters, waiter.rest.isNone = true
  | _ => True

instance (s : Tracked V) (e : OwnSlot.Event V) : Decidable (KeepsWhole s e) :=
  match e with
  | .reconnect => inferInstanceAs (Decidable (∀ waiter ∈ s.world.waiters, _))
  | .commits _ | .walGrows _ | .send | .data | .resolve | .heartbeat _ _ | .ack _ | .hears _ =>
    .isTrue trivial

/-!
## What the decoder counts

The cursor of a change is its transaction's commit and its number in it.
-/

/-- `txn`, when the messages of a transaction have taken these positions. -/
def decodingAfter (commit : ℕ) (taken : List ℕ) : Decoding :=
  { commit := commit, lsn := (Counter.after taken).last, shared := (Counter.after taken).n }

omit [DecidableEq V] in
theorem positionOf_decodingAfter (commit : ℕ) (taken : List ℕ) (lsn : ℕ) :
    positionOf (some (decodingAfter commit taken)) lsn =
      (.change commit lsn ((Counter.after taken).next lsn),
        some (decodingAfter commit (taken ++ [lsn]))) := by
  by_cases same : (Counter.after taken).last = some lsn
  · simp [positionOf, decodingAfter, Counter.next, Counter.take, same]
  · simp [positionOf, decodingAfter, Counter.next, Counter.take, same]

/-- The cursor that the stream gives a change. -/
def given (slots : RowMessage V → ℕ) (t : Txn V) (id : ChangeId) : Option PgCursor :=
  (t.rows[id.row]?).map fun row =>
    .change t.commit row.1 ((Counter.after (takenBefore slots t id.row id.old)).next row.1)

omit [DecidableEq V] in
theorem given_eq_numbered {slots : RowMessage V → ℕ} {t : Txn V} (h : t.InOrder) (id : ChangeId) :
    given slots t id = numbered slots t id := by
  cases at_ : t.rows[id.row]? with
  | none => simp [given, numbered, at_]
  | some row => simp [given, numbered, at_, next_takenBefore h at_]

/-- Where the decoding of the messages stands. -/
inductive Stands (bridge : Bridge) (w : World V) : Prop
  | between (none_ : w.handled.messages = 0) (whole : w.halves = [])
  | inside {t : Txn V} {k : ℕ} (at_ : w.wal[w.handled.txn]? = some t)
      (some_ : w.handled.messages = k + 1) (le : k ≤ t.rows.length) (whole : w.halves = [])
      (counts : w.txn =
        some (decodingAfter t.commit (positions bridge.slots (t.rows.take k))))
  /-- an update's delete is with the pipeline -/
  | halfway {t : Txn V} {k : ℕ} {r : Rest V} {msg : RowMessage V} {before : Row V}
      (at_ : w.wal[w.handled.txn]? = some t) (some_ : w.handled.messages = k + 2)
      (half : w.halves = [r]) (id : r.id = { txn := w.handled.txn, row := k })
      (row : t.rows[k]? = some (r.lsn, msg)) (moves : bridge.decode msg = .move before r.after)
      (counts : w.txn =
        some (decodingAfter t.commit (positions bridge.slots (t.rows.take k) ++ [r.lsn])))

/-! ## What was handed over -/

omit [DecidableEq V] in
/-- In the order of the log, and of the messages of a transaction. -/
def Emission.Earlier (a b : Emission V) : Prop :=
  a.index < b.index ∨ a.index = b.index ∧ a.id.Before b.id

/-- A change of the bridge, at the cursor its stream gives it. -/
structure Emission.Of (bridge : Bridge) (wal : List (Txn V)) (e : Emission V) : Prop where
  logged : wal[e.index]? = some e.txn
  given : given bridge.slots e.txn e.id = some e.cursor
  captured : ∃ lsn msg, e.txn.rows[e.id.row]? = some (lsn, msg) ∧ bridge.captures msg = true ∧
    (e.id.old = true → bridge.slots msg = 2)

/-- A change whose message has been handled, but for the update that goes on. -/
def Emission.Behind (w : World V) (e : Emission V) : Prop :=
  e.index < w.handled.txn ∨
    e.index = w.handled.txn ∧ e.id.row + 1 < w.handled.messages ∧
      ∀ r ∈ w.halves, e.id.row = r.id.row → e.id.old = true

structure Numbers (bridge : Bridge) (s : Tracked V) : Prop where
  stands : Stands bridge s.world
  mine : ∀ y ∈ s.world.waiters, y.rest ≠ none → y.generation = s.world.generation
  each : ∀ e ∈ s.emitted, e.Of bridge s.world.wal
  stream : ∀ e ∈ s.emitted, e.stream ≤ s.world.generation
  behind : ∀ e ∈ s.emitted, e.stream = s.world.generation → e.Behind s.world
  sorted : s.emitted.Pairwise fun a b => a.stream = b.stream → a.Earlier b

variable {bridge : Bridge} {s : Tracked V} {w : World V}

theorem Emission.Of.logs {wal wal' : List (Txn V)} {e : Emission V} (h : e.Of bridge wal)
    (grows : ∀ (i : ℕ) (t : Txn V), wal[i]? = some t → wal'[i]? = some t) : e.Of bridge wal' :=
  ⟨grows _ _ h.logged, h.given, h.captured⟩

/-- One step more, of the same connection. -/
theorem Numbers.extend (h : Numbers bridge s) (new : Option (Emission V))
    (wal : ∀ (i : ℕ) (t : Txn V), s.world.wal[i]? = some t → w.wal[i]? = some t)
    (generation : w.generation = s.world.generation) (stands : Stands bridge w)
    (mine : ∀ y ∈ w.waiters, y.rest ≠ none → y.generation = w.generation)
    (each : ∀ e ∈ new, e.Of bridge w.wal ∧ e.stream = w.generation ∧ e.Behind w ∧
      ∀ a ∈ s.emitted, a.stream = w.generation → a.Earlier e)
    (behind : ∀ a ∈ s.emitted, a.stream = w.generation → a.Behind w) :
    Numbers bridge { world := w, emitted := s.emitted ++ new.toList } where
  stands := stands
  mine := mine
  each e mem := by
    rcases List.mem_append.mp mem with was | is
    · exact (h.each e was).logs wal
    · exact (each e (Option.mem_toList.mp is)).1
  stream e mem := by
    rcases List.mem_append.mp mem with was | is
    · exact generation ▸ h.stream e was
    · exact Nat.le_of_eq (each e (Option.mem_toList.mp is)).2.1
  behind e mem here := by
    rcases List.mem_append.mp mem with was | is
    · exact behind e was here
    · exact (each e (Option.mem_toList.mp is)).2.2.1
  sorted := by
    refine List.pairwise_append.mpr ⟨h.sorted, ?_, fun a was e is same => ?_⟩
    · cases new with
      | none => exact .nil
      | some e => exact List.pairwise_singleton _ _
    · obtain ⟨-, stream, -, earlier⟩ := each e (Option.mem_toList.mp is)
      exact earlier a was (same.trans stream)

/-- What only the log, the server and the pipeline move. -/
theorem Numbers.still (h : Numbers bridge s)
    (wal : ∀ (i : ℕ) (t : Txn V), s.world.wal[i]? = some t → w.wal[i]? = some t)
    (generation : w.generation = s.world.generation) (handled : w.handled = s.world.handled)
    (txn : w.txn = s.world.txn) (halves : w.halves = s.world.halves)
    (mine : ∀ y ∈ w.waiters, y.rest ≠ none → y.generation = w.generation) :
    Numbers bridge { world := w, emitted := s.emitted } := by
  have stands : Stands bridge w := by
    cases h.stands with
    | between none_ whole => exact .between (handled ▸ none_) (halves ▸ whole)
    | inside at_ some_ le whole counts =>
      exact .inside (handled ▸ wal _ _ at_) (handled ▸ some_) le (halves ▸ whole) (txn ▸ counts)
    | halfway at_ some_ half id row moves counts =>
      exact .halfway (handled ▸ wal _ _ at_) (handled ▸ some_) (halves ▸ half) (handled ▸ id) row
        moves (txn ▸ counts)
  have behind : ∀ a ∈ s.emitted, a.stream = w.generation → a.Behind w := by
    intro a mem here
    rw [Emission.Behind, handled, halves]
    exact h.behind a mem (generation ▸ here)
  have extended := h.extend (w := w) none wal generation stands mine nofun behind
  simpa using extended

/-!
## A row message's handler

It hands over one change or two, and the second half of a move waits for the answer to the first.
-/

/-- How many positions it takes before it waits for the pipeline. -/
def Decoded.atOnce {R : Type*} : Decoded R → ℕ
  | .nothing => 0
  | .skip | .notice | .hand _ _ | .move _ _ => 1
  | .reserve _ => 2

/-- What it goes on with afterwards. -/
def Decoded.half (lsn : ℕ) (id : RowId) : Decoded (Row V) → Option (Rest V)
  | .move _ after => some { lsn := lsn, after := after, id := id }
  | .nothing | .skip | .notice | .hand _ _ | .reserve _ => none

section Handler

omit [DecidableEq V]

variable {lsn commit : ℕ} {id : RowId} {decoded : Decoded (Row V)} {taken : List ℕ}

theorem Decoded.slots_of_half (h : decoded.half lsn id = none) : decoded.slots = decoded.atOnce := by
  cases decoded with
  | move before after => simp [Decoded.half] at h
  | _ => rfl

theorem Decoded.move_of_half {r : Rest V} (h : decoded.half lsn id = some r) :
    (∃ before, decoded = .move before r.after) ∧ r.lsn = lsn ∧ r.id = id := by
  cases decoded with
  | move before after =>
    obtain rfl := Option.some.inj h
    exact ⟨⟨before, rfl⟩, rfl, rfl⟩
  | _ => simp [Decoded.half] at h

/-- The change handed over first is at the last position taken so far. -/
theorem Decoded.of_first {k : ℕ} {change : ChangeId} (lsn : ℕ) (id : RowId) (h : decoded.first k = some change) :
    change.row = k ∧ decoded.isChange = true ∧ (change.old = true → decoded.slots = 2) ∧
      (if change.old then [] else List.replicate (decoded.slots - 1) lsn) =
        List.replicate (decoded.atOnce - 1) lsn ∧
      ∀ r ∈ decoded.half lsn id, change.old = true := by
  cases decoded with
  | hand op row =>
    obtain rfl := Option.some.inj h
    exact ⟨rfl, rfl, nofun, rfl, nofun⟩
  | reserve row =>
    obtain rfl := Option.some.inj h
    exact ⟨rfl, rfl, nofun, rfl, nofun⟩
  | move before after =>
    obtain rfl := Option.some.inj h
    exact ⟨rfl, rfl, fun _ => rfl, rfl, fun _ _ => rfl⟩
  | _ => simp [Decoded.first] at h

theorem halves_handleRow :
    (w.handleRow lsn id decoded).halves = w.halves ++ (decoded.half lsn id).toList := by
  cases decoded <;>
    simp [World.handleRow, World.handUpdate, World.hand, World.halves, Decoded.half]

theorem mine_handleRow (mine : ∀ y ∈ w.waiters, y.rest ≠ none → y.generation = w.generation) :
    ∀ y ∈ (w.handleRow lsn id decoded).waiters, y.rest ≠ none → y.generation = w.generation := by
  have appended : ∀ rest, ∀ y ∈ w.waiters ++ [{ generation := w.generation, rest := rest }],
      y.rest ≠ none → y.generation = w.generation := by
    intro rest y mem half
    rcases List.mem_append.mp mem with was | is
    · exact mine y was half
    · rw [List.mem_singleton.mp is]
  cases decoded with
  | nothing => exact mine
  | skip => exact appended none
  | notice => exact appended none
  | hand op row => exact appended none
  | reserve row => exact appended none
  | move before after => exact appended _

theorem kept_handleRow (w : World V) (lsn : ℕ) (id : RowId) (decoded : Decoded (Row V)) :
    (w.handleRow lsn id decoded).wal = w.wal ∧
    (w.handleRow lsn id decoded).generation = w.generation := by
  cases decoded <;> exact ⟨rfl, rfl⟩

theorem txn_handleRow (counts : w.txn = some (decodingAfter commit taken)) :
    (w.handleRow lsn id decoded).txn =
      some (decodingAfter commit (taken ++ List.replicate decoded.atOnce lsn)) := by
  have first := positionOf_decodingAfter commit taken lsn
  have second := positionOf_decodingAfter commit (taken ++ [lsn]) lsn
  cases decoded with
  | nothing => simpa [World.handleRow, Decoded.atOnce] using counts
  | skip => simp [World.handleRow, World.hand, Decoded.atOnce, counts, first]
  | notice => simp [World.handleRow, World.hand, Decoded.atOnce, counts, first]
  | hand op row => simp [World.handleRow, World.hand, Decoded.atOnce, counts, first]
  | reserve row =>
    simp [World.handleRow, World.handUpdate, World.hand, Decoded.atOnce, counts, first, second,
      List.replicate_succ]
  | move before after => simp [World.handleRow, World.hand, Decoded.atOnce, counts, first]

/-- **What it hands over first**, and at which cursor. -/
theorem emission_handleRow (counts : w.txn = some (decodingAfter commit taken)) {t : Txn V}
    {index k : ℕ} {handled : OwnSlot.Place} :
    emission { w.handleRow lsn id decoded with handled := handled }
        ((decoded.first k).map fun id => (t, index, id)) =
      (decoded.first k).map fun id =>
        { stream := w.generation, txn := t, index := index, id := id
          cursor := .change commit lsn
            ((Counter.after (taken ++ List.replicate (decoded.atOnce - 1) lsn)).next lsn) } := by
  have first := positionOf_decodingAfter commit taken lsn
  have second := positionOf_decodingAfter commit (taken ++ [lsn]) lsn
  cases decoded with
  | nothing => rfl
  | skip => rfl
  | notice => rfl
  | hand op row =>
    simp [emission, World.handleRow, World.hand, Decoded.first, Decoded.atOnce, counts, first,
      StreamItem.cursor]
  | reserve row =>
    simp [emission, World.handleRow, World.handUpdate, World.hand, Decoded.first, Decoded.atOnce,
      counts, first, second, StreamItem.cursor]
  | move before after =>
    simp [emission, World.handleRow, World.hand, Decoded.first, Decoded.atOnce, counts, first,
      StreamItem.cursor]

end Handler

/-- No handler of this connection waits, and no other is halfway. -/
theorem Numbers.whole (h : Numbers bridge s) (idle : s.world.processing = false) :
    s.world.halves = [] := by
  have idle := idle_of_not_processing idle
  rw [World.halves, List.filterMap_eq_nil_iff]
  intro y mem
  by_contra half
  exact idle y mem (h.mine y mem half)

/-- **A row message.** -/
theorem Numbers.row (h : Numbers bridge s) {t : Txn V} {k lsn : ℕ} {msg : RowMessage V}
    (idle : s.world.processing = false) (at_ : s.world.wal[s.world.handled.txn]? = some t)
    (some_ : s.world.handled.messages = k + 1) (row : t.rows[k]? = some (lsn, msg))
    (w : World V)
    (is : w = { s.world.handleRow lsn { txn := s.world.handled.txn, row := k }
      (bridge.decode msg) with handled := { s.world.handled with messages := k + 2 } }) :
    Numbers bridge
      { world := w, emitted := s.emitted ++ (emission w (label bridge s.world .data)).toList } := by
  have whole := h.whole idle
  have counts : s.world.txn =
      some (decodingAfter t.commit (positions bridge.slots (t.rows.take k))) := by
    cases h.stands with
    | between none_ => omega
    | inside at' some' _ _ counts =>
      obtain rfl := Option.some.inj (at_.symm.trans at')
      obtain rfl : k = _ := Nat.succ.inj (some_.symm.trans some')
      exact counts
    | halfway _ _ half => simp [whole] at half
  have labelled : label bridge s.world .data =
      ((bridge.decode msg).first k).map fun id => (t, s.world.handled.txn, id) := by
    simp [label, at_, some_, row]
  have taken : positions bridge.slots (t.rows.take (k + 1)) =
      positions bridge.slots (t.rows.take k) ++ List.replicate (bridge.slots msg) lsn := by
    rw [take_succ row]
    simp
  -- what this connection has handed over before is of messages before this one
  have before : ∀ a ∈ s.emitted, a.stream = s.world.generation →
      a.index < s.world.handled.txn ∨ a.index = s.world.handled.txn ∧ a.id.row < k := by
    intro a mem here
    rcases h.behind a mem here with less | ⟨same, row_lt, _⟩
    · exact .inl less
    · exact .inr ⟨same, by omega⟩
  let id : RowId := { txn := s.world.handled.txn, row := k }
  have kept := kept_handleRow s.world lsn id (bridge.decode msg)
  have wal : w.wal = s.world.wal := by rw [is]; exact kept.1
  have generation : w.generation = s.world.generation := by rw [is]; exact kept.2
  have handled : w.handled = { s.world.handled with messages := k + 2 } := by rw [is]
  have halves : w.halves = ((bridge.decode msg).half lsn id).toList := by
    have added : (s.world.handleRow lsn id (bridge.decode msg)).halves = _ := halves_handleRow
    rw [whole, List.nil_append] at added
    rw [is]
    exact added
  have txn : w.txn = some (decodingAfter t.commit
      (positions bridge.slots (t.rows.take k) ++
        List.replicate (bridge.decode msg).atOnce lsn)) := by
    rw [is]
    exact txn_handleRow counts
  have stands : Stands bridge w := by
    cases half : (bridge.decode msg).half lsn id with
    | none =>
      rw [half] at halves
      have all := Decoded.slots_of_half half
      refine .inside (k := k + 1) (by rw [wal, handled]; exact at_) (by rw [handled])
        (List.getElem?_eq_some_iff.mp row).1 halves ?_
      rw [txn, taken, Bridge.slots, all]
    | some r =>
      rw [half] at halves
      obtain ⟨⟨old, moves⟩, rfl, own⟩ := Decoded.move_of_half half
      refine .halfway (by rw [wal, handled]; exact at_) (by rw [handled]) halves
        (by rw [own, handled]) row moves ?_
      rw [txn, moves]
      rfl
  have mine : ∀ y ∈ w.waiters, y.rest ≠ none → y.generation = w.generation := by
    rw [generation, is]
    exact mine_handleRow h.mine
  rw [labelled]
  refine h.extend _ (fun i t logged => wal ▸ logged) generation stands mine ?_ ?_
  · intro e mem
    rw [is, emission_handleRow counts] at mem
    obtain ⟨change, first, rfl⟩ := Option.map_eq_some_iff.mp mem
    obtain ⟨rfl, captures, two, late, old⟩ := Decoded.of_first lsn id first
    refine ⟨⟨wal ▸ at_, ?_, lsn, msg, row, captures, two⟩, generation.symm, ?_, ?_⟩
    · have late : takenBefore bridge.slots t change.row change.old =
          positions bridge.slots (t.rows.take change.row) ++
            List.replicate ((bridge.decode msg).atOnce - 1) lsn := by
        rw [takenBefore_at row, ← late]
        rfl
      simp [given, row, late]
    · refine .inr ⟨by rw [handled], by rw [handled]; exact Nat.lt_succ_self _, fun r mem _ => ?_⟩
      rw [halves, Option.mem_toList] at mem
      exact old r mem
    · intro a mem here
      exact (before a mem (here.trans generation)).imp_right (And.imp_right .inl)
  · intro a mem here
    rcases before a mem (here.trans generation) with less | ⟨same, less⟩
    · exact .inl (by rw [handled]; exact less)
    · refine .inr ⟨by rw [handled]; exact same, by rw [handled]; show a.id.row + 1 < k + 2; omega,
        fun r mem' is' => ?_⟩
      rw [halves, Option.mem_toList] at mem'
      have := congrArg RowId.row (Decoded.move_of_half mem').2.2
      simp only [id] at this
      omega

/-- **The update of a row that moves**, after its delete. -/
theorem Numbers.goesOn (h : Numbers bridge s) {x : Waiter V} {rest : List (Waiter V)} {r : Rest V}
    (head : s.world.waiters = x :: rest) (half : x.rest = some r) (w : World V)
    (is : w = { s.world with waiters := rest }.handUpdate x.generation r.lsn r.after true r.id) :
    Numbers bridge
      { world := w, emitted := s.emitted ++ (emission w (label bridge s.world .resolve)).toList } := by
  have halves : s.world.halves = r :: rest.filterMap Waiter.rest := by
    rw [World.halves, head, List.filterMap_cons, half]
  have current : x.generation = s.world.generation :=
    h.mine x (head ▸ List.mem_cons_self) (by rw [half]; simp)
  cases h.stands with
  | between none_ whole => simp [whole] at halves
  | inside at_ some_ le whole counts => simp [whole] at halves
  | @halfway t k r' msg old at_ some_ half' own row moves counts =>
    obtain ⟨rfl, none_⟩ := List.cons.inj (half'.symm.trans halves)
    have cursor := positionOf_decodingAfter t.commit
      (positions bridge.slots (t.rows.take k) ++ [r'.lsn]) r'.lsn
    have two : bridge.slots msg = 2 := by simp [Bridge.slots, moves, Decoded.slots]
    have taken : positions bridge.slots (t.rows.take (k + 1)) =
        positions bridge.slots (t.rows.take k) ++ [r'.lsn] ++ [r'.lsn] := by
      rw [take_succ row]
      simp [two, List.replicate_succ]
    have labelled : label bridge s.world .resolve =
        some (t, s.world.handled.txn, { row := k, old := false }) := by
      simp [label, head, half, own, at_]
    have whole : w.halves = [] := by
      rw [is]
      simp [World.halves, World.handUpdate, World.hand, ← none_]
    have emits : emission w (label bridge s.world .resolve) =
        some
          { stream := s.world.generation, txn := t, index := s.world.handled.txn
            id := { row := k, old := false }
            cursor := .change t.commit r'.lsn ((Counter.after
              (positions bridge.slots (t.rows.take k) ++ [r'.lsn])).next r'.lsn) } := by
      rw [labelled, is]
      simp [emission, World.handUpdate, World.hand, StreamItem.cursor, counts, cursor, current]
    have stands : Stands bridge w := by
      rw [is]
      refine .inside (k := k + 1) at_ some_ (List.getElem?_eq_some_iff.mp row).1 (is ▸ whole) ?_
      simp [World.handUpdate, World.hand, counts, cursor, taken]
    have mine : ∀ y ∈ w.waiters, y.rest ≠ none → y.generation = w.generation := by
      intro y mem left
      rw [is] at mem
      rcases List.mem_append.mp mem with was | new
      · rw [h.mine y (head ▸ List.mem_cons_of_mem _ was) left, is]
        rfl
      · rw [List.mem_singleton.mp new] at left
        exact absurd rfl left
    have before : ∀ a ∈ s.emitted, a.stream = s.world.generation →
        a.index < s.world.handled.txn ∨ a.index = s.world.handled.txn ∧
          (a.id.row < k ∨ a.id.row = k ∧ a.id.old = true) := by
      intro a mem here
      rcases h.behind a mem here with less | ⟨same, row_lt, first⟩
      · exact .inl less
      · refine .inr ⟨same, ?_⟩
        rcases Nat.lt_or_eq_of_le (show a.id.row ≤ k by omega) with less | last
        · exact .inl less
        · exact .inr ⟨last, first r' (by rw [half']; exact List.mem_cons_self) (by rw [own, last])⟩
    rw [emits]
    refine h.extend _ (fun i t logged => by rw [is]; exact logged) (by rw [is]; rfl) stands mine ?_ ?_
    · intro e mem
      obtain rfl := Option.some.inj mem
      refine ⟨⟨by rw [is]; exact at_, ?_, r'.lsn, msg, row, ?_, fun on => by cases on⟩, by rw [is]; rfl, ?_, ?_⟩
      · simp [given, row, takenBefore_at row, two]
      · simp [Bridge.captures, moves, Decoded.isChange]
      · refine .inr ⟨by rw [is]; rfl, by rw [is]; show k + 1 < s.world.handled.messages; omega, ?_⟩
        simp [whole]
      · intro a mem here
        rcases before a mem (here.trans (by rw [is]; rfl)) with less | ⟨same, less | ⟨last, first⟩⟩
        · exact .inl less
        · exact .inr ⟨same, .inl less⟩
        · exact .inr ⟨same, .inr ⟨last, first, rfl⟩⟩
    · intro a mem here
      rcases h.behind a mem (here.trans (by rw [is]; rfl)) with less | ⟨same, row_lt, _⟩
      · exact .inl (by rw [is]; exact less)
      · exact .inr ⟨by rw [is]; exact same, by rw [is]; exact row_lt, by simp [whole]⟩

/-!
## What is confirmed

Heartbeats and acknowledgements move what the server may forget, and no number.
-/

theorem Numbers.tell (h : Numbers bridge s) (lsn : ℕ) :
    Numbers bridge { s with world := s.world.tell lsn } := by
  unfold World.tell
  split
  · exact h.still (fun _ _ logged => logged) rfl rfl rfl rfl h.mine
  · exact h

theorem Numbers.heartbeat (h : Numbers bridge s) (lsn : ℕ) (shouldRespond : Bool) :
    Numbers bridge { s with world := s.world.heartbeat lsn shouldRespond } := by
  have report : Numbers bridge { s with world := s.world.report lsn } := by
    unfold World.report
    split
    · split
      · exact h.still (fun _ _ logged => logged) rfl rfl rfl rfl h.mine
      · exact h
    · exact h.still (fun _ _ logged => logged) rfl rfl rfl rfl h.mine
  have reported : Numbers bridge
      { s with world := if s.world.idle then s.world.report lsn else s.world } := by
    split
    · exact report
    · exact h
  simp only [World.heartbeat]
  split
  · split
    · exact reported.tell _
    · exact reported
  · exact reported

theorem Numbers.confirm (h : Numbers bridge s) (cursor : PgCursor) :
    Numbers bridge { s with world := s.world.confirm cursor } := by
  unfold World.confirm
  split
  · exact h
  · next confirm _ =>
    split
    · exact h
    · split
      · have moved : Numbers bridge { s with world := { s.world with ackedLsn := some confirm } } :=
          h.still (fun _ _ logged => logged) rfl rfl rfl rfl h.mine
        exact moved.tell confirm
      · exact h

theorem Numbers.ack (h : Numbers bridge s) (n : ℕ) (cursor : PgCursor) :
    Numbers bridge { s with world := s.world.ack n cursor } := by
  have settled : Numbers bridge
      { s with world := { s.world with acked := max s.world.acked (n + 1) }.settle cursor } := by
    unfold World.settle
    split
    · exact h.still (fun _ _ logged => logged) rfl rfl rfl rfl h.mine
    · exact h.still (fun _ _ logged => logged) rfl rfl rfl rfl h.mine
  exact settled.confirm cursor

/-! ## The run -/

/-- **Every step.** -/
theorem Numbers.step (h : Numbers bridge s) {e : OwnSlot.Event V} {s' : Tracked V}
    (whole : KeepsWhole s e) (move : s.step bridge e = some s') : Numbers bridge s' := by
  obtain ⟨w, stepped, rfl⟩ := Option.map_eq_some_iff.mp move
  have silent : ∀ {w : World V}, Numbers bridge { world := w, emitted := s.emitted } →
      Numbers bridge { world := w, emitted := s.emitted ++ (none : Option (Emission V)).toList } := by
    intro w kept
    simpa using kept
  cases Moves.of_step stepped with
  | commits takes =>
    exact silent (h.still (fun i t logged => by
      rw [List.getElem?_append_left (List.getElem?_eq_some_iff.mp logged).1]
      exact logged) rfl rfl rfl rfl h.mine)
  | walGrows grows => exact silent (h.still (fun _ _ logged => logged) rfl rfl rfl rfl h.mine)
  | send => exact silent (h.still (fun _ _ logged => logged) rfl rfl rfl rfl h.mine)
  | @begins t idle at_ none_ =>
    have nothing : label bridge s.world .data = none := by simp [label, at_, none_]
    have halves := h.whole idle
    rw [nothing]
    refine h.extend none (fun _ _ logged => logged) rfl ?_ h.mine nofun ?_
    · exact .inside (k := 0) at_ rfl (Nat.zero_le _) halves rfl
    · intro a mem here
      rcases h.behind a mem here with less | ⟨_, row_lt, _⟩
      · exact .inl less
      · omega
  | row idle at_ some_ row => exact h.row idle at_ some_ row _ rfl
  | @ends t idle at_ all =>
    have nothing : label bridge s.world .data = none := by simp [label, at_, all]
    have halves := h.whole idle
    rw [nothing]
    refine h.extend none (fun _ _ logged => logged) rfl (.between rfl ?_) ?_ nofun ?_
    · simpa [World.halves, World.hand] using halves
    · intro y mem left
      rcases List.mem_append.mp mem with was | new
      · exact h.mine y was left
      · rw [List.mem_singleton.mp new] at left
        exact absurd rfl left
    · intro a mem here
      refine .inl ?_
      rcases h.behind a mem here with less | ⟨same, _⟩
      · exact Nat.lt_succ_of_lt less
      · exact same ▸ Nat.lt_succ_self _
  | answered head last =>
    have nothing : label bridge s.world .resolve = none := by simp [label, head, last]
    rw [nothing]
    refine silent (h.still (fun _ _ logged => logged) rfl rfl rfl ?_ fun y mem => ?_)
    · simp [World.halves, head, last]
    · exact h.mine y (head ▸ List.mem_cons_of_mem _ mem)
  | goesOn head half => exact h.goesOn head half _ rfl
  | heartbeat sent => exact silent (h.heartbeat _ _)
  | ack item => exact silent (h.ack _ _)
  | hears told => exact silent (h.still (fun _ _ logged => logged) rfl rfl rfl rfl h.mine)
  | reconnect =>
    have none_ : s.world.halves = [] := by
      rw [World.halves, List.filterMap_eq_nil_iff]
      intro y mem
      exact Option.isNone_iff_eq_none.mp (whole y mem)
    refine silent ⟨.between rfl none_, fun y mem left => ?_, h.each,
      fun a mem => Nat.le_succ_of_le (h.stream a mem), fun a mem here => ?_, h.sorted⟩
    · exact absurd (Option.isNone_iff_eq_none.mp (whole y mem)) left
    · have := h.stream a mem
      simp only at here
      omega

/-- What is told of the stream changes nothing about it. -/
theorem run_world {ok : Tracked V → OwnSlot.Event V → Prop} {s s' : Tracked V}
    {es : List (OwnSlot.Event V)} (run : Run (Tracked.step bridge) ok s es s') :
    Run (OwnSlot.step bridge) anyStep s.world es s'.world := by
  induction run with
  | nil s => exact .nil _
  | cons _ move _ ih =>
    obtain ⟨w, stepped, rfl⟩ := Option.map_eq_some_iff.mp move
    exact .cons trivial stepped ih

theorem Numbers.start (bridge : Bridge) (start : Start V) : Numbers bridge (Tracked.start start) where
  stands := .between rfl rfl
  mine _ mem := by cases mem
  each _ mem := by cases mem
  stream _ mem := by cases mem
  behind _ mem := by cases mem
  sorted := .nil

section Run

variable {start : Start V} {es : List (OwnSlot.Event V)}

theorem numbers_of_run (run : Run (Tracked.step bridge) KeepsWhole (Tracked.start start) es s) :
    Numbers bridge s :=
  run.invariant (Numbers.start bridge start) fun _ _ _ whole h move => h.step whole move

/-- The log stays in order. -/
theorem ordered_of_run (run : Run (Tracked.step bridge) KeepsWhole (Tracked.start start) es s) :
    Ordered s.world.wal s.world.walEnd := by
  have inStep : InStep bridge start s.world :=
    (run_world run).invariant (InStep.opened bridge start) fun _ _ _ _ h move =>
      h.step (Moves.of_step move)
  exact inStep.sound.logged.ordered

/-- **Over a connection the cursors increase.** -/
theorem increasing_of_run (run : Run (Tracked.step bridge) KeepsWhole (Tracked.start start) es s)
    (inOrder : ∀ t ∈ s.world.wal, t.InOrder) :
    s.emitted.Pairwise fun a b => a.stream = b.stream → lsnAfter b.cursor (some a.cursor) = true := by
  have numbers := numbers_of_run run
  have ordered := ordered_of_run run
  refine numbers.sorted.imp_of_mem fun {a b} memA memB earlier same => ?_
  have ofA := numbers.each a memA
  have ofB := numbers.each b memB
  have orderA := inOrder a.txn (List.mem_of_getElem? ofA.logged)
  have orderB := inOrder b.txn (List.mem_of_getElem? ofB.logged)
  obtain ⟨lsn, msg, rowA, captures, two⟩ := ofA.captured
  obtain ⟨lsn', msg', rowB, -, -⟩ := ofB.captured
  have givenA := ofA.given
  have givenB := ofB.given
  rcases earlier same with less | ⟨index, before⟩
  · -- what commits later is after it
    have commits := ordered.lt ofA.logged ofB.logged less
    have ends := (ordered.at ofA.logged).1
    simp only [given, rowA, rowB, Option.map_some, Option.some.injEq] at givenA givenB
    rw [← givenA, ← givenB, lsnAfter_change]
    exact .inl (by omega)
  · have txn : a.txn = b.txn :=
      Option.some.inj (ofA.logged.symm.trans (index ▸ ofB.logged))
    rw [given_eq_numbered orderA] at givenA
    rw [given_eq_numbered orderB] at givenB
    have positive : 0 < bridge.slots msg := by
      rw [Bridge.captures] at captures
      rw [Bridge.slots]
      cases decoded : bridge.decode msg with
      | nothing | skip | notice => simp [decoded, Decoded.isChange] at captures
      | hand _ _ | reserve _ | move _ _ => simp [Decoded.slots]
    exact numbered_lt orderA rowA (txn ▸ rowB) positive two before givenA (txn ▸ givenB)

/-- **The cursor of a change is its number.** -/
theorem numbered_of_run (run : Run (Tracked.step bridge) KeepsWhole (Tracked.start start) es s)
    (inOrder : ∀ t ∈ s.world.wal, t.InOrder) (alike : ∀ t ∈ s.world.wal, bridge.CountsAlike t) :
    ∀ e ∈ s.emitted, numbered RowMessage.slots e.txn e.id = some e.cursor := by
  intro e mem
  have of := (numbers_of_run run).each e mem
  have logged := List.mem_of_getElem? of.logged
  obtain ⟨lsn, msg, row, captures, -⟩ := of.captured
  rw [← numbered_alike (alike e.txn logged) row captures,
    ← given_eq_numbered (inOrder e.txn logged)]
  exact of.given

end Run

end Syncle.Postgres
