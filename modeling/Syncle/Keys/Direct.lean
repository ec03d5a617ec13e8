import Mathlib.Logic.Function.Basic
import Mathlib.Order.Lattice
import Syncle.Keys.Requests
import Syncle.Lib.Run

/-!
# The keys of a live stream

`deliverBatch` names a batch by the cursor it reaches to, "stable per batch". What a batch holds is
decided when it is flushed: by its size, by a timer, by what comes next. A change that was sent and
whose batch was not checkpointed is handed over again after a restart, and may be flushed with others.

`Cdc.Stream` is the pipeline await by await. Here is what its keys are made of: when a flush happens,
and which row a change is found to have, is left open.

A batch that is sent again is the one that was sent if it is cut at the same place: after as many rows,
and with the same position behind the last of them. What it is made of is what is handed over, which
after a restart is what was handed over before.
-/

namespace Syncle.Keys

open Lib

/-- A buffered change. -/
structure Item (γ R : Type*) where
  cursor : γ
  row : R
  deriving DecidableEq

/-- One run of `deliverBatch`. -/
structure LiveBatch (γ R : Type*) where
  items : List (Item γ R)
  /-- its last row, or a skipped position beyond it -/
  reach : γ
  seq : Nat
  deriving DecidableEq

structure LiveStream (γ R : Type*) where
  seq : Nat
  watermark : Option γ
  buffer : List (Item γ R) := []
  tailCursor : Option γ := none
  inflight : Option (LiveBatch γ R) := none
  deriving DecidableEq

/-- A recorded delivery. -/
structure LiveDelivery (γ R : Type*) where
  items : List (Item γ R)
  failed : Bool
  deriving DecidableEq

/-- `unrecorded` is history, which no code reads: the batch that was sent from the cursor the job is
at. -/
structure Live (γ R : Type*) where
  cursorJson : Option γ := none
  cursorOffset : Nat := 0
  deliveries : Nat → Option (LiveDelivery γ R) := fun _ => none
  stream : Option (LiveStream γ R) := none
  sent : List (Request γ (Item γ R)) := []
  unrecorded : Option (LiveBatch γ R) := none

inductive LiveEvent (γ R : Type*) where
  | start
  /-- `accept`, with the row it has found -/
  | accept (item : Item γ R)
  /-- a position is passed (`notePosition`) -/
  | skip (cursor : γ)
  | flush
  /-- `recordDelivery` -/
  | record (failed : Bool)
  | checkpoint
  /-- a notice is recorded and checkpointed -/
  | notice (cursor : γ)
  /-- a crash, a stop, a halt -/
  | leave
  /-- `resendDelivery` -/
  | resend (sequence : Nat) (ok : Bool)
  deriving DecidableEq

def LiveBatch.request {γ R : Type*} (d : LiveBatch γ R) : Request γ (Item γ R) where
  key := .own d.reach
  rows := d.items

namespace Live

variable {γ R : Type*} (cursorAfter : γ → Option γ → Bool) (w : Live γ R)

/-- A batch of no rows is only a position to move past, and is not sent. -/
def flush (s : LiveStream γ R) (reach : γ) : Live γ R :=
  let d : LiveBatch γ R := { items := s.buffer, reach := reach, seq := s.seq }
  let s := { s with buffer := [], tailCursor := none, inflight := some d }
  if d.items.isEmpty then { w with stream := some s }
  else { w with stream := some s, sent := w.sent ++ [d.request], unrecorded := some d }

def checkpoint (s : LiveStream γ R) (nextSeq : Nat) (cursor : γ) : Live γ R :=
  { w with
    cursorJson := some cursor
    cursorOffset := nextSeq
    stream := some { s with seq := nextSeq, watermark := some cursor, inflight := none }
    unrecorded := none }

def resend (sequence : Nat) (d : LiveDelivery γ R) (ok : Bool) : Live γ R :=
  { w with
    deliveries := Function.update w.deliveries sequence (some { d with failed := !ok })
    sent := w.sent ++ [{ key := .sequence sequence, rows := d.items, resent := true }] }

def running (s : LiveStream γ R) : LiveEvent γ R → Option (Live γ R)
  | .start => none
  | .accept item =>
    if cursorAfter item.cursor s.watermark then
      let s := { s with buffer := s.buffer ++ [item], tailCursor := some item.cursor }
      some { w with stream := some s }
    else some w
  | .skip cursor =>
    if cursorAfter cursor (s.tailCursor <|> s.watermark) then
      some { w with stream := some { s with tailCursor := some cursor } }
    else some w
  | .flush =>
    -- at most one delivery is in flight
    match s.tailCursor, s.inflight with
    | some reach, none => some (w.flush s reach)
    | _, _ => none
  | .record failed =>
    match s.inflight with
    | some d =>
      let delivery : LiveDelivery γ R := { items := d.items, failed := failed }
      if d.items.isEmpty then none
      else some { w with deliveries := Function.update w.deliveries d.seq (some delivery) }
    | none => none
  | .checkpoint =>
    s.inflight.map fun d => w.checkpoint s (if d.items.isEmpty then d.seq else d.seq + 1) d.reach
  | .notice cursor =>
    -- everything before it has been flushed, and is over
    if s.buffer.isEmpty ∧ s.tailCursor.isNone ∧ s.inflight.isNone then
      if cursorAfter cursor s.watermark then some (w.checkpoint s (s.seq + 1) cursor) else some w
    else none
  | .leave => some { w with stream := none }
  | .resend _ _ => none

def step (e : LiveEvent γ R) : Option (Live γ R) :=
  match w.stream, e with
  | some s, e => w.running cursorAfter s e
  | none, .start =>
    some { w with stream := some { seq := w.cursorOffset, watermark := w.cursorJson } }
  | none, .resend sequence ok =>
    match w.deliveries sequence with
    | some d => if d.failed then some (w.resend sequence d ok) else none
    | none => none
  | none, _ => none

end Live

/-- How far the batches go that are in flight, or recorded. -/
def LiveStream.flushed {γ R : Type*} (s : LiveStream γ R) : Option γ :=
  s.inflight.map (·.reach) <|> s.watermark

/-- How far the stream has taken what was handed over. -/
def LiveStream.furthest {γ R : Type*} (s : LiveStream γ R) : Option γ := s.tailCursor <|> s.flushed

/-- The position that was passed behind the last row, if one was. -/
def LiveBatch.passed {γ R : Type*} [DecidableEq γ] (d : LiveBatch γ R) : Option γ :=
  if d.items.getLast?.map (·.cursor) = some d.reach then none else some d.reach

/-- And of the batch that is being filled. -/
def LiveStream.passed {γ R : Type*} [DecidableEq γ] (s : LiveStream γ R) : Option γ :=
  if s.buffer.getLast?.map (·.cursor) = s.tailCursor then none else s.tailCursor

/-- Beyond a position, if there is one. -/
def Beyond {γ : Type*} [LT γ] (mark : Option γ) (cursor : γ) : Prop := ∀ m, mark = some m → m < cursor

namespace Live

variable {γ R : Type*} [LinearOrder γ]

/-- The next change is the one a batch had at its place that was sent and not checkpointed. -/
def handsOverAgain (w : Live γ R) (s : LiveStream γ R) (item : Item γ R) : Prop :=
  s.inflight = none → ∀ d, w.unrecorded = some d →
    ∀ old, d.items[s.buffer.length]? = some old → item = old

/-- What the stream takes is beyond what it has taken since it was opened. Of a batch that was sent and
not checkpointed, the changes come again as they were, and it is cut at the same place. -/
def keepsTaken (cursorAfter : γ → Option γ → Bool) (w : Live γ R) (s : LiveStream γ R) :
    LiveEvent γ R → Prop
  | .accept item =>
    cursorAfter item.cursor s.watermark = true →
      Beyond s.furthest item.cursor ∧ w.handsOverAgain s item
  | .skip cursor => cursorAfter cursor (s.tailCursor <|> s.watermark) = true → Beyond s.furthest cursor
  | .flush => ∀ d, w.unrecorded = some d →
    s.buffer.length = d.items.length ∧ s.passed = d.passed
  | .notice cursor =>
    cursorAfter cursor s.watermark = true → w.unrecorded = none ∧ Beyond s.furthest cursor
  | _ => True

/-- A step that keeps the batches apart. -/
def keepsBatches (cursorAfter : γ → Option γ → Bool) (w : Live γ R) (e : LiveEvent γ R) : Prop :=
  ∀ s, w.stream = some s → w.keepsTaken cursorAfter s e

instance (mark : Option γ) (cursor : γ) : Decidable (Beyond mark cursor) :=
  decidableSome mark (· < cursor)

instance [DecidableEq R] (w : Live γ R) (s : LiveStream γ R) (item : Item γ R) :
    Decidable (w.handsOverAgain s item) :=
  have (d : LiveBatch γ R) :
      Decidable (∀ old, d.items[s.buffer.length]? = some old → item = old) :=
    decidableSome _ (item = ·)
  have : Decidable (∀ d, w.unrecorded = some d →
      ∀ old, d.items[s.buffer.length]? = some old → item = old) := decidableSome w.unrecorded _
  inferInstanceAs (Decidable (s.inflight = none → _))

instance [DecidableEq R] (cursorAfter : γ → Option γ → Bool) (w : Live γ R) (s : LiveStream γ R)
    (e : LiveEvent γ R) : Decidable (w.keepsTaken cursorAfter s e) :=
  match e with
  | .accept item => inferInstanceAs (Decidable (cursorAfter item.cursor s.watermark = true →
      Beyond s.furthest item.cursor ∧ w.handsOverAgain s item))
  | .skip cursor => inferInstanceAs (Decidable (cursorAfter cursor (s.tailCursor <|> s.watermark) = true →
      Beyond s.furthest cursor))
  | .flush => decidableSome w.unrecorded fun d =>
      s.buffer.length = d.items.length ∧ s.passed = d.passed
  | .notice cursor => inferInstanceAs (Decidable (cursorAfter cursor s.watermark = true →
      w.unrecorded = none ∧ Beyond s.furthest cursor))
  | .start | .record _ | .checkpoint | .leave | .resend _ _ => isTrue trivial

instance [DecidableEq R] (cursorAfter : γ → Option γ → Bool) (w : Live γ R) (e : LiveEvent γ R) :
    Decidable (w.keepsBatches cursorAfter e) :=
  decidableSome w.stream fun s => w.keepsTaken cursorAfter s e

/-! ## The invariant -/

/-- A batch of rows that lie beyond a position, and no further than it reaches. -/
structure Batch (mark : Option γ) (d : LiveBatch γ R) : Prop where
  beyond : ∀ i ∈ d.items, Beyond mark i.cursor
  within : ∀ i ∈ d.items, i.cursor ≤ d.reach
  reach : Beyond mark d.reach

/-- What the stream holds lies beyond the delivery in flight, which lies beyond the watermark. -/
structure Taken (w : Live γ R) (s : LiveStream γ R) : Prop where
  seq : s.seq = w.cursorOffset
  watermark : s.watermark = w.cursorJson
  inflight : ∀ d, s.inflight = some d → Batch w.cursorJson d ∧ d.seq = w.cursorOffset
  sending : ∀ d, s.inflight = some d →
    (d.items ≠ [] → w.unrecorded = some d) ∧ ∀ u, w.unrecorded = some u → u = d
  buffer : ∀ i ∈ s.buffer, Beyond s.flushed i.cursor ∧ ∃ t, s.tailCursor = some t ∧ i.cursor ≤ t
  tail : ∀ t, s.tailCursor = some t → Beyond s.flushed t
  /-- as far as both go, the buffer is the batch that was sent from here -/
  again : s.inflight = none → ∀ d, w.unrecorded = some d → ∀ (i : ℕ) (x old : Item γ R),
    s.buffer[i]? = some x → d.items[i]? = some old → x = old

/-- The batch has been recorded. -/
def Settled (w : Live γ R) (d : LiveBatch γ R) : Prop :=
  (∀ i ∈ d.items, i.cursor ≤ d.reach) ∧ ∃ p, w.cursorJson = some p ∧ d.reach ≤ p

structure Inv (w : Live γ R) : Prop where
  one : OnePayload w.sent
  taken : ∀ s, w.stream = some s → Taken w s
  unrecorded : ∀ d, w.unrecorded = some d →
    Batch w.cursorJson d ∧ d.seq = w.cursorOffset ∧ d.items ≠ []
  /-- a number stands for one batch -/
  deliveries : ∀ q d, w.deliveries q = some d → q < w.cursorOffset ∨
    (q = w.cursorOffset ∧ ∃ u, w.unrecorded = some u ∧ d.items = u.items)
  sent : ∀ r ∈ w.sent,
    (∃ d, r = d.request ∧ (w.unrecorded = some d ∨ Settled w d)) ∨
    ∃ q d, w.deliveries q = some d ∧ r = { key := .sequence q, rows := d.items, resent := true }

section Steps

variable {w w' : Live γ R} {s : LiveStream γ R}

theorem lt_of_tail {c : γ} (beyond : Beyond s.furthest c) :
    ∀ t, s.tailCursor = some t → t < c := by
  intro t is
  refine beyond t ?_
  rw [LiveStream.furthest, is]
  rfl

/-- What is beyond the tail is beyond what has been flushed. -/
theorem Taken.beyond {c : γ} (taken : Taken w s) (beyond : Beyond s.furthest c) : Beyond s.flushed c := by
  intro m is
  cases tail : s.tailCursor with
  | none =>
    refine beyond m ?_
    rw [LiveStream.furthest, tail]
    exact is
  | some t => exact lt_trans (taken.tail t tail m is) (lt_of_tail beyond t tail)

/-- The stream takes one more thing. -/
theorem Taken.take (taken : Taken w s) {c : γ} (beyond : Beyond s.furthest c) {buffer : List (Item γ R)}
    (more : ∀ i ∈ buffer, i ∈ s.buffer ∨ i.cursor = c)
    (again : s.inflight = none → ∀ d, w.unrecorded = some d → ∀ (i : ℕ) (x old : Item γ R),
      buffer[i]? = some x → d.items[i]? = some old → x = old) :
    Taken w { s with buffer := buffer, tailCursor := some c } := by
  refine ⟨taken.seq, taken.watermark, taken.inflight, taken.sending, fun i mem => ?_, fun t is => ?_,
    again⟩
  · rcases more i mem with old | new
    · obtain ⟨after, t, is, within⟩ := taken.buffer i old
      exact ⟨after, c, rfl, le_trans within (le_of_lt (lt_of_tail beyond t is))⟩
    · exact ⟨by rw [new]; exact taken.beyond beyond, c, rfl, le_of_eq new⟩
  · obtain rfl := Option.some.inj is
    exact taken.beyond beyond

/-- What the stream does by itself. -/
theorem Inv.withStream (inv : w.Inv) {s' : LiveStream γ R} (taken : Taken w s') :
    ({ w with stream := some s' } : Live γ R).Inv := by
  refine ⟨inv.one, fun s is => ?_, inv.unrecorded, inv.deliveries, inv.sent⟩
  obtain rfl := Option.some.inj is
  exact ⟨taken.seq, taken.watermark, taken.inflight, taken.sending, taken.buffer, taken.tail,
    taken.again⟩

/-- A change that comes again joins the buffer at the place it had. -/
theorem Taken.again_snoc (taken : Taken w s) {item : Item γ R} (handed : w.handsOverAgain s item)
    (free : s.inflight = none) {d : LiveBatch γ R} (sent : w.unrecorded = some d) {i : ℕ}
    {x old : Item γ R} (here : (s.buffer ++ [item])[i]? = some x) (there : d.items[i]? = some old) :
    x = old := by
  rcases Nat.lt_trichotomy i s.buffer.length with before | rfl | after
  · rw [List.getElem?_append_left before] at here
    exact taken.again free d sent i x old here there
  · rw [List.getElem?_concat_length] at here
    obtain rfl := Option.some.inj here
    exact handed free d sent old there
  · rw [List.getElem?_eq_none (by rw [List.length_append, List.length_singleton]; omega)] at here
    cases here

/-- Cut after as many rows, with the same position behind them, it is the batch that was sent. -/
theorem Taken.cut (taken : Taken w s) (free : s.inflight = none) {d : LiveBatch γ R}
    (sent : w.unrecorded = some d) {reach : γ} (tail : s.tailCursor = some reach)
    (size : s.buffer.length = d.items.length) (passed : s.passed = d.passed) :
    s.buffer = d.items ∧ reach = d.reach := by
  have items : s.buffer = d.items := by
    refine List.ext_getElem size fun i here there => ?_
    exact taken.again free d sent i _ _ (List.getElem?_eq_getElem here)
      (List.getElem?_eq_getElem there)
  refine ⟨items, ?_⟩
  rw [LiveStream.passed, LiveBatch.passed, items, tail] at passed
  -- both reach to the last row, or both to one position
  split at passed
  · next row =>
    split at passed
    · next row' => exact Option.some.inj (row.symm.trans row')
    · cases passed
  · split at passed
    · cases passed
    · exact Option.some.inj passed

/-- A batch of later rows has neither its key nor a row in common with one that is recorded. -/
theorem Settled.agrees {d d' : LiveBatch γ R} (batch : Batch w.cursorJson d) (settled : Settled w d') :
    d.request.Agrees d'.request := by
  obtain ⟨within, p, at_, reached⟩ := settled
  refine .of_apart (fun same => ?_) fun _ _ i mem mem' => ?_
  · have later := batch.reach p at_
    rw [Key.own.inj same] at later
    exact absurd reached (not_le_of_gt later)
  · have later := batch.beyond i mem p at_
    exact absurd (le_trans (within i mem') reached) (not_le_of_gt later)

theorem Inv.flush (inv : w.Inv) (at_ : w.stream = some s) {reach : γ} (tail : s.tailCursor = some reach)
    (free : s.inflight = none)
    (again : ∀ d, w.unrecorded = some d → s.buffer.length = d.items.length ∧ s.passed = d.passed) :
    (w.flush s reach).Inv := by
  have taken := inv.taken s at_
  have flushed : s.flushed = w.cursorJson := by
    rw [LiveStream.flushed, free]
    exact taken.watermark
  let d : LiveBatch γ R := { items := s.buffer, reach := reach, seq := s.seq }
  have batch : Batch w.cursorJson d := by
    refine ⟨fun i mem => flushed ▸ (taken.buffer i mem).1, fun i mem => ?_, flushed ▸ taken.tail reach tail⟩
    obtain ⟨-, t, is, within⟩ := taken.buffer i mem
    obtain rfl := Option.some.inj (tail.symm.trans is)
    exact within
  -- a batch that was sent from here is this one
  have same (u : LiveBatch γ R) (is : w.unrecorded = some u) : u = d := by
    obtain ⟨size, passed⟩ := again u is
    obtain ⟨items, rfl⟩ := taken.cut free is tail size passed
    obtain ⟨-, seq, -⟩ := inv.unrecorded u is
    cases u
    simp only [d, items, taken.seq, LiveBatch.mk.injEq, true_and]
    exact seq
  unfold Live.flush
  dsimp only
  split
  · next empty =>
    have none : w.unrecorded = none := by
      cases is : w.unrecorded with
      | none => rfl
      | some u =>
        have items := (inv.unrecorded u is).2.2
        rw [same u is] at items
        exact absurd (List.isEmpty_iff.mp empty) items
    refine inv.withStream
      ⟨taken.seq, taken.watermark, fun d' is => ?_, fun d' is => ?_, nofun, nofun, nofun⟩
    · obtain rfl := Option.some.inj is
      exact ⟨batch, taken.seq⟩
    · obtain rfl := Option.some.inj is
      exact ⟨fun rows => absurd (List.isEmpty_iff.mp empty) rows, fun u is => nomatch none.symm.trans is⟩
  · next rows =>
    have rows : d.items ≠ [] := fun empty => rows (List.isEmpty_iff.mpr empty)
    refine ⟨inv.one.snoc fun r mem => ?_, fun s' is => ?_, fun u is => ?_, fun q d' is => ?_,
      fun r mem => ?_⟩
    · rcases inv.sent r mem with ⟨u, rfl, is | settled⟩ | ⟨q, d', -, rfl⟩
      · obtain rfl := same u is
        exact .refl _
      · exact settled.agrees batch
      · exact .of_apart nofun fun _ resent => nomatch resent
    · obtain rfl := Option.some.inj is
      refine ⟨taken.seq, taken.watermark, fun d' is => ?_, fun d' is => ?_, nofun, nofun, nofun⟩
      · obtain rfl := Option.some.inj is
        exact ⟨batch, taken.seq⟩
      · obtain rfl := Option.some.inj is
        exact ⟨fun _ => rfl, fun u is => (Option.some.inj is).symm⟩
    · obtain rfl := Option.some.inj is
      exact ⟨batch, taken.seq, rows⟩
    · rcases inv.deliveries q d' is with older | ⟨here, u, was, items⟩
      · exact Or.inl older
      · exact Or.inr ⟨here, d, rfl, same u was ▸ items⟩
    · rcases List.mem_append.mp mem with old | new
      · rcases inv.sent r old with ⟨u, rfl, is | settled⟩ | resent
        · exact Or.inl ⟨u, rfl, Or.inl (congrArg some (same u is)).symm⟩
        · exact Or.inl ⟨u, rfl, Or.inr settled⟩
        · exact Or.inr resent
      · obtain rfl := List.mem_singleton.mp new
        exact Or.inl ⟨d, rfl, Or.inl rfl⟩

/-- The cursor moves to where every batch that was sent is recorded. -/
theorem Inv.checkpoint (inv : w.Inv) (at_ : w.stream = some s) {cursor : γ} {nextSeq : Nat}
    (later : Beyond w.cursorJson cursor) (le : w.cursorOffset ≤ nextSeq)
    (recorded : ∀ u, w.unrecorded = some u → u.reach ≤ cursor ∧ w.cursorOffset < nextSeq)
    (buffer : ∀ i ∈ s.buffer, cursor < i.cursor) (tail : ∀ t, s.tailCursor = some t → cursor < t) :
    (w.checkpoint s nextSeq cursor).Inv := by
  have taken := inv.taken s at_
  refine ⟨inv.one, fun s' is => ?_, nofun, fun q d is => Or.inl ?_, fun r mem => ?_⟩
  · obtain rfl := Option.some.inj is
    refine ⟨rfl, rfl, nofun, nofun, fun i mem => ⟨fun m is => ?_, (taken.buffer i mem).2⟩,
      fun t is m is' => ?_, nofun⟩
    · obtain rfl := Option.some.inj is
      exact buffer i mem
    · obtain rfl := Option.some.inj is'
      exact tail t is
  · rcases inv.deliveries q d is with older | ⟨here, u, was, -⟩
    · exact Nat.lt_of_lt_of_le older le
    · exact here ▸ (recorded u was).2
  · rcases inv.sent r mem with ⟨d, rfl, is | ⟨within, p, was, reached⟩⟩ | resent
    · exact Or.inl ⟨d, rfl, Or.inr ⟨(inv.unrecorded d is).1.within, cursor, rfl, (recorded d is).1⟩⟩
    · exact Or.inl ⟨d, rfl, Or.inr ⟨within, cursor, rfl, le_trans reached (le_of_lt (later p was))⟩⟩
    · exact Or.inr resent

theorem Inv.record (inv : w.Inv) (at_ : w.stream = some s) {d : LiveBatch γ R}
    (inflight : s.inflight = some d) (rows : d.items ≠ []) {delivery : LiveDelivery γ R}
    (holds : delivery.items = d.items) :
    ({ w with deliveries := Function.update w.deliveries d.seq (some delivery) } : Live γ R).Inv := by
  have taken := inv.taken s at_
  have seq := (taken.inflight d inflight).2
  have sending := (taken.sending d inflight).1 rows
  refine ⟨inv.one, fun s' is => ?_, inv.unrecorded, fun q d' is => ?_, fun r mem => ?_⟩
  · obtain rfl := Option.some.inj (at_.symm.trans is)
    exact ⟨taken.seq, taken.watermark, taken.inflight, taken.sending, taken.buffer, taken.tail,
      taken.again⟩
  · simp only [Function.update_apply] at is
    split at is
    · next here =>
      obtain rfl := Option.some.inj is
      exact Or.inr ⟨here.trans seq, d, sending, holds⟩
    · exact inv.deliveries q d' is
  · rcases inv.sent r mem with own | ⟨q, d', is, rfl⟩
    · exact Or.inl own
    · refine Or.inr ?_
      by_cases here : q = d.seq
      · -- what the number stood for is the batch that is in flight
        have items : d'.items = delivery.items := by
          rcases inv.deliveries q d' is with older | ⟨-, u, was, items⟩
          · exact absurd (here.trans seq) (Nat.ne_of_lt older)
          · obtain rfl := Option.some.inj (sending.symm.trans was)
            exact items.trans holds.symm
        exact ⟨q, delivery, by simp only [here, Function.update_self], by rw [items]⟩
      · exact ⟨q, d', by simp only [Function.update_of_ne here]; exact is, rfl⟩

theorem Inv.resend (inv : w.Inv) {q : Nat} {d : LiveDelivery γ R} (is : w.deliveries q = some d)
    (ok : Bool) : (w.resend q d ok).Inv := by
  have there {q' : Nat} {d' : LiveDelivery γ R} (was : w.deliveries q' = some d') :
      ∃ d'', (w.resend q d ok).deliveries q' = some d'' ∧ d''.items = d'.items := by
    simp only [Live.resend, Function.update_apply]
    split
    · next same =>
      obtain rfl := Option.some.inj (is.symm.trans (same ▸ was))
      exact ⟨_, rfl, rfl⟩
    · exact ⟨d', was, rfl⟩
  refine ⟨inv.one.snoc fun r mem => ?_, fun s at_ => ?_, inv.unrecorded, fun q' d' was => ?_,
    fun r mem => ?_⟩
  · rcases inv.sent r mem with ⟨u, rfl, -⟩ | ⟨q', d', was, rfl⟩
    · exact .of_apart nofun fun resent => nomatch resent
    · refine ⟨fun same => ?_, fun resent => nomatch resent⟩
      obtain rfl := Key.sequence.inj same
      obtain rfl := Option.some.inj (is.symm.trans was)
      rfl
  · have taken := inv.taken s at_
    exact ⟨taken.seq, taken.watermark, taken.inflight, taken.sending, taken.buffer, taken.tail,
      taken.again⟩
  · simp only [Live.resend, Function.update_apply] at was
    split at was
    · next same =>
      obtain rfl := Option.some.inj was
      exact same ▸ inv.deliveries q d is
    · exact inv.deliveries q' d' was
  · rcases List.mem_append.mp mem with old | new
    · rcases inv.sent r old with own | ⟨q', d', was, rfl⟩
      · exact Or.inl own
      · obtain ⟨d'', is', items⟩ := there was
        exact Or.inr ⟨q', d'', is', by rw [items]⟩
    · obtain rfl := List.mem_singleton.mp new
      obtain ⟨d'', is', items⟩ := there is
      exact Or.inr ⟨q, d'', is', by rw [items]⟩

theorem Inv.running (inv : w.Inv) {cursorAfter : γ → Option γ → Bool} {e : LiveEvent γ R}
    (at_ : w.stream = some s) (keeps : w.keepsBatches cursorAfter e)
    (move : w.running cursorAfter s e = some w') : w'.Inv := by
  have taken := inv.taken s at_
  have keeps := keeps s at_
  cases e with
  | start => cases move
  | accept item =>
    simp only [Live.running] at move
    split at move
    · next after =>
      obtain rfl := Option.some.inj move
      obtain ⟨beyond, handed⟩ := keeps after
      refine inv.withStream (taken.take beyond (fun i mem => ?_)
        fun free d sent i x old here there => taken.again_snoc handed free sent here there)
      rcases List.mem_append.mp mem with old | new
      · exact Or.inl old
      · exact Or.inr (by rw [List.mem_singleton.mp new])
    · exact Option.some.inj move ▸ inv
  | skip cursor =>
    simp only [Live.running] at move
    split at move
    · next after =>
      obtain rfl := Option.some.inj move
      exact inv.withStream (taken.take (keeps after) (fun _ => Or.inl) taken.again)
    · exact Option.some.inj move ▸ inv
  | flush =>
    simp only [Live.running] at move
    split at move
    · next reach tail free =>
      obtain rfl := Option.some.inj move
      exact inv.flush at_ tail free keeps
    · cases move
  | record failed =>
    simp only [Live.running] at move
    split at move
    · next d inflight =>
      split at move
      · cases move
      · next rows =>
        obtain rfl := Option.some.inj move
        exact inv.record at_ inflight (fun empty => rows (List.isEmpty_iff.mpr empty)) rfl
    · cases move
  | checkpoint =>
    obtain ⟨d, inflight, rfl⟩ := Option.map_eq_some_iff.mp move
    obtain ⟨batch, seq⟩ := taken.inflight d inflight
    have flushed : s.flushed = some d.reach := by
      rw [LiveStream.flushed, inflight]
      rfl
    refine inv.checkpoint at_ batch.reach ?_ (fun u was => ?_)
      (fun i mem => (taken.buffer i mem).1 d.reach flushed)
      fun t is => taken.tail t is d.reach flushed
    · rw [← seq]
      split
      · exact Nat.le_refl _
      · exact Nat.le_succ _
    · obtain rfl := (taken.sending d inflight).2 u was
      have rows := (inv.unrecorded u was).2.2
      rw [if_neg (fun empty => rows (List.isEmpty_iff.mp empty)), seq]
      exact ⟨le_rfl, Nat.lt_succ_self _⟩
  | notice cursor =>
    simp only [Live.running] at move
    split at move
    · next idle =>
      have buffer : s.buffer = [] := List.isEmpty_iff.mp idle.1
      have tail : s.tailCursor = none := Option.isNone_iff_eq_none.mp idle.2.1
      have free : s.inflight = none := Option.isNone_iff_eq_none.mp idle.2.2
      split at move
      · next after =>
        obtain rfl := Option.some.inj move
        obtain ⟨none, beyond⟩ := keeps after
        have furthest : s.furthest = w.cursorJson := by
          rw [LiveStream.furthest, LiveStream.flushed, tail, free]
          exact taken.watermark
        refine inv.checkpoint at_ (furthest ▸ beyond) ?_ (fun u was => nomatch none.symm.trans was)
          (fun i mem => ?_) fun t is => nomatch tail.symm.trans is
        · rw [taken.seq]
          exact Nat.le_succ _
        · rw [buffer] at mem
          cases mem
      · exact Option.some.inj move ▸ inv
    · cases move
  | leave =>
    obtain rfl := Option.some.inj move
    exact ⟨inv.one, nofun, inv.unrecorded, inv.deliveries, inv.sent⟩
  | resend q ok => cases move

theorem Inv.step (inv : w.Inv) {cursorAfter : γ → Option γ → Bool} {e : LiveEvent γ R}
    (keeps : w.keepsBatches cursorAfter e) (move : w.step cursorAfter e = some w') : w'.Inv := by
  unfold Live.step at move
  split at move
  · next s at_ => exact inv.running at_ keeps move
  · obtain rfl := Option.some.inj move
    exact inv.withStream ⟨rfl, rfl, nofun, nofun, nofun, nofun, nofun⟩
  · split at move
    · next d is =>
      split at move
      · obtain rfl := Option.some.inj move
        exact inv.resend is _
      · cases move
    · cases move
  · cases move

/-- **While a batch that was not checkpointed is handed over as it was and cut at the same place, and
nothing is handed over again that the stream still holds, a key of a live stream names one batch.** -/
theorem direct_onePayload {cursorAfter : γ → Option γ → Bool} {es : List (LiveEvent γ R)}
    (run : Run (Live.step cursorAfter) (Live.keepsBatches cursorAfter) {} es w) : OnePayload w.sent := by
  have start : ({} : Live γ R).Inv := ⟨.nil, nofun, nofun, nofun, nofun⟩
  exact Inv.one (run.invariant start fun _ _ _ keeps inv move => inv.step keeps move)

end Steps

end Live

end Syncle.Keys
