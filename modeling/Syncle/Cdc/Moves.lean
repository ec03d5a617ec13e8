import Syncle.Cdc.Stream

/-!
# What one event can do

`World.step` computes; `Moves` says the same as rules, one for each way an event can go. Every
invariant of the pipeline is a case analysis over these rules, so that none of them unfolds the
step function again (`Moves.of_step`).

The second half is the frame of the chain's functions: none of them touches what a delivery in
flight has (`SameDelivery`), and what `work` does leaves the chain's part alone (`SameChain`).
-/

namespace Syncle.Cdc

open World

variable {γ R Sig : Type*} {b : Bridge γ R Sig} {src : List (StreamItem γ R)}

/-!
## One rule for each way an event can go

The order is that of a change's life: an item is taken and looked at, waits in the batch, the batch is
cut and attempted, what became of it is settled, the checkpoint is stored. A notice, which the chain
keeps until the pipeline is drained, has the same end without a delivery; the last three rules are
those of the connection and the process.
-/

section Inversion

variable [DecidableEq Sig]

/-- What an event of the stream does, guard and outcome. -/
inductive Moves (b : Bridge γ R Sig) (src : List (StreamItem γ R)) :
    World γ R Sig → Event R → World γ R Sig → Prop
  | take {w s item} (hs : w.stream = some s) (idle : s.task = .idle)
      (hitem : src[w.next]? = some item) :
      Moves b src w .take { w with next := w.next + 1, stream := some (s.takeItem b item) }
  | examined {w s c a} (hs : w.stream = some s) (task : s.task = .examining c) :
      Moves b src w (.examined a)
        ((w.pass c.cursor (s.examine b c a).2).withStream (s.examine b c a).1)
  | recognised {w s c a} (hs : w.stream = some s) (task : s.task = .recognising c) :
      Moves b src w (.recognised a)
        ((w.pass c.cursor (s.acceptTruncate b c a).2).withStream (s.acceptTruncate b c a).1)
  -- a timer that goes off waits its turn behind what the chain is at
  | timer {w s t} (hs : w.stream = some s) (armed : s.timer = some t) :
      Moves b src w .timer
        (w.withStream { s.clearTimer with timedFlushes := s.timedFlushes + 1 })
  | timedFlush {w s n} (hs : w.stream = some s) (idle : s.task = .idle)
      (fired : s.timedFlushes = n + 1) :
      Moves b src w .timedFlush (w.withStream ({ s with timedFlushes := n }).flushAndFinish)
  -- one delivery at a time: the next batch is cut when nothing is in flight
  | flush {w s next} (hs : w.stream = some s) (task : s.task = .flushing next)
      (free : s.inflight = none) :
      Moves b src w .flush (w.withStream (s.takeBatch.afterFlush b next))
  | noticeDrained {w s cursor} (hs : w.stream = some s)
      (task : s.task = .draining (.notice cursor)) (free : s.inflight = none) :
      Moves b src w .drained (w.withStream
        (s.goto (if s.halted.isSome then .idle else .noticing cursor 0)))
  | haltDrained {w s status} (hs : w.stream = some s)
      (task : s.task = .draining (.halt status)) (free : s.inflight = none) :
      Moves b src w .drained (w.withStream ((s.halt status).goto .idle))
  -- a notice is recorded, or tried again, or the bridge is stopped
  | noticeHalted {w s cursor tries recorded written acked} (hs : w.stream = some s)
      (task : s.task = .noticing cursor tries) (halted : s.halted.isSome) :
      Moves b src w (.noticed recorded written acked) (w.withStream (s.goto .idle))
  | noticed {w s cursor tries acked} (hs : w.stream = some s)
      (task : s.task = .noticing cursor tries) (live : s.halted = none) :
      Moves b src w (.noticed true true acked)
        (w.persist (s.goto .idle) (s.seq + 1) cursor acked)
  | noticeThrew {w s cursor tries recorded written acked} (hs : w.stream = some s)
      (task : s.task = .noticing cursor tries) (live : s.halted = none)
      (more : tries + 1 < settleAttempts) :
      Moves b src w (.noticed recorded written acked)
        (w.withStream (s.goto (.noticing cursor (tries + 1))))
  | noticeGivenUp {w s cursor tries recorded written acked} (hs : w.stream = some s)
      (task : s.task = .noticing cursor tries) (live : s.halted = none) :
      Moves b src w (.noticed recorded written acked)
        (w.withStream ((s.halt .failed).goto .idle))
  | fatal {w s} (hs : w.stream = some s) (idle : s.task = .idle) :
      Moves b src w .fatal
        (w.withStream (if s.halted.isSome then s else s.startFlush b (.halt .failed)))
  -- the attempt: what went through is in the destination before anything else is written
  | delivered {w s d} (hs : w.stream = some s) (hd : s.inflight = some d)
      (stage : d.stage = .attempting) :
      Moves b src w (.attempted .success) { w with
        dest := w.dest ++ [{ op := d.op, items := d.items }]
        stream := some (s.deliver (some (d.at (.settling .success 0)))) }
  | refused {w s d error targets} (hs : w.stream = some s) (hd : s.inflight = some d)
      (stage : d.stage = .attempting) :
      Moves b src w (.attempted (.failed error targets)) (w.withStream
        (s.deliver (some (d.at (.settling (.failed error targets) 0)))))
  -- a stream that has halted settles nothing more
  | abandoned {w s d e} (hs : w.stream = some s) (hd : s.inflight = some d)
      (halted : s.halted.isSome) : Moves b src w e (w.withStream (s.deliver none))
  -- what the outcome asks for: dead letters, a stop, nothing
  | worked {w s d outcome tries a w' s' seq} (hs : w.stream = some s)
      (hd : s.inflight = some d) (stage : d.stage = .settling outcome tries)
      (live : s.halted = none) (hw : runWork b w s d outcome a = (w', s', .next seq)) :
      Moves b src w (.work a) (w'.withStream
        (s'.deliver (some (d.at (.checkpointing outcome seq tries)))))
  | workThrew {w s d outcome tries a w' s'} (hs : w.stream = some s)
      (hd : s.inflight = some d) (stage : d.stage = .settling outcome tries)
      (live : s.halted = none) (hw : runWork b w s d outcome a = (w', s', .threw)) :
      Moves b src w (.work a) (w'.withStream (settleThrew s' d outcome tries))
  | workStopped {w s d outcome tries a w' s'} (hs : w.stream = some s)
      (hd : s.inflight = some d) (stage : d.stage = .settling outcome tries)
      (live : s.halted = none) (hw : runWork b w s d outcome a = (w', s', .stopped)) :
      Moves b src w (.work a) (w'.withStream (s'.deliver none))
  -- `persist` is the only rule that moves the cursor
  | checkpointed {w s d outcome nextSeq tries acked} (hs : w.stream = some s)
      (hd : s.inflight = some d) (stage : d.stage = .checkpointing outcome nextSeq tries)
      (live : s.halted = none) :
      Moves b src w (.checkpoint true acked)
        (w.persist (s.deliver none) nextSeq d.reach acked)
  | checkpointThrew {w s d outcome nextSeq tries acked} (hs : w.stream = some s)
      (hd : s.inflight = some d) (stage : d.stage = .checkpointing outcome nextSeq tries)
      (live : s.halted = none) :
      Moves b src w (.checkpoint false acked) (w.withStream (settleThrew s d outcome tries))
  -- a reconnect may hand items over again; a restart hands over all behind the cursor
  | reconnect {w s n} (hs : w.stream = some s) (hn : n ≤ w.next) :
      Moves b src w (.reconnect n) { w with next := n }
  | crash {w s} (hs : w.stream = some s) : Moves b src w .crash { w with stream := none }
  | restart {w n} (passed : ∀ item ∈ src.take n, b.cursorAfter item.cursor w.cursorJson = false) :
      Moves b src w (.restart n)
        { w with next := n, stream := some (Stream.start w.cursorJson w.cursorOffset) }

theorem Moves.of_reopen {w w' : World γ R Sig} {n : Nat} (h : reopen b src w n = some w') :
    Moves b src w (.restart n) w' := by
  unfold reopen at h
  split at h
  · next hall =>
    obtain rfl := Option.some.inj h
    exact .restart fun item hitem => by simpa using List.all_eq_true.mp hall item hitem
  · cases h

/-- **Inversion of a step.** -/
theorem Moves.of_step {w w' : World γ R Sig} {e : Event R} (h : World.step b src w e = some w') :
    Moves b src w e w' := by
  unfold World.step at h
  split at h
  case h_2 =>
    split at h
    · exact .of_reopen h
    · cases h
  case h_1 s hs =>
    cases e with
    | take =>
      simp only [running] at h
      split at h
      · next idle hitem => obtain rfl := Option.some.inj h; exact .take hs idle hitem
      · cases h
    | examined a =>
      simp only [running] at h
      split at h
      · next task => obtain rfl := Option.some.inj h; exact .examined hs task
      · cases h
    | recognised a =>
      simp only [running] at h
      split at h
      · next task => obtain rfl := Option.some.inj h; exact .recognised hs task
      · cases h
    | timer =>
      simp only [running] at h
      split at h
      · next armed => obtain rfl := Option.some.inj h; exact .timer hs armed
      · cases h
    | timedFlush =>
      simp only [running] at h
      split at h
      · next idle fired => obtain rfl := Option.some.inj h; exact .timedFlush hs idle fired
      · cases h
    | flush =>
      simp only [running] at h
      split at h
      · next task free => obtain rfl := Option.some.inj h; exact .flush hs task free
      · cases h
    | drained =>
      simp only [running] at h
      split at h
      · next task free => obtain rfl := Option.some.inj h; exact .noticeDrained hs task free
      · next task free => obtain rfl := Option.some.inj h; exact .haltDrained hs task free
      · cases h
    | noticed recorded written acked =>
      simp only [running] at h
      split at h
      · next cursor tries task =>
        split at h
        · next halted => obtain rfl := Option.some.inj h; exact .noticeHalted hs task halted
        · next live =>
          have live : s.halted = none := by simpa using live
          split at h
          · next ok =>
            obtain ⟨rfl, rfl⟩ : recorded = true ∧ written = true := by simpa using ok
            obtain rfl := Option.some.inj h
            exact .noticed hs task live
          · split at h
            · next more => obtain rfl := Option.some.inj h; exact .noticeThrew hs task live more
            · obtain rfl := Option.some.inj h; exact .noticeGivenUp hs task live
      · cases h
    | fatal =>
      simp only [running] at h
      split at h
      · next idle => obtain rfl := Option.some.inj h; exact .fatal hs idle
      · cases h
    | attempted outcome =>
      simp only [running] at h
      split at h
      · next d hd =>
        split at h
        · next stage => obtain rfl := Option.some.inj h; exact .delivered hs hd stage
        · next stage => obtain rfl := Option.some.inj h; exact .refused hs hd stage
        · cases h
      · cases h
    | work a =>
      simp only [running] at h
      split at h
      · next d hd =>
        split at h
        · next outcome tries stage =>
          split at h
          · next halted => obtain rfl := Option.some.inj h; exact .abandoned hs hd halted
          · next live =>
            have live : s.halted = none := by simpa using live
            split at h
            · next hw => obtain rfl := Option.some.inj h; exact .workThrew hs hd stage live hw
            · next hw => obtain rfl := Option.some.inj h; exact .workStopped hs hd stage live hw
            · next hw => obtain rfl := Option.some.inj h; exact .worked hs hd stage live hw
        · cases h
      · cases h
    | checkpoint written acked =>
      simp only [running] at h
      split at h
      · next d hd =>
        split at h
        · next outcome nextSeq tries stage =>
          split at h
          · next halted => obtain rfl := Option.some.inj h; exact .abandoned hs hd halted
          · next live =>
            have live : s.halted = none := by simpa using live
            cases written with
            | true => obtain rfl := Option.some.inj h; exact .checkpointed hs hd stage live
            | false => obtain rfl := Option.some.inj h; exact .checkpointThrew hs hd stage live
        · cases h
      · cases h
    | reconnect n =>
      simp only [running] at h
      split at h
      · next hn => obtain rfl := Option.some.inj h; exact .reconnect hs hn
      · cases h
    | crash => obtain rfl := Option.some.inj h; exact .crash hs
    | restart n =>
      simp only [running] at h
      split at h
      · split at h
        · exact .of_reopen h
        · cases h
      · cases h

/-!
### The chain's events

What needs no look at a delivery: these keep what is in flight as it is (`SameDelivery`, below), so an
invariant of the batch alone has only these cases.
-/

/-- An event of the chain: every one but those of the delivery, of a notice being settled, and a
start. -/
def Event.ofChain : Event R → Bool
  | .take | .examined _ | .recognised _ | .timer | .timedFlush | .flush | .drained | .fatal
  | .reconnect _ | .crash => true
  | _ => false

/-- The steps of the chain, out of `Moves`. -/
inductive ChainMoves (b : Bridge γ R Sig) (src : List (StreamItem γ R)) :
    World γ R Sig → Event R → World γ R Sig → Prop
  | take {w s item} (hs : w.stream = some s) (idle : s.task = .idle)
      (hitem : src[w.next]? = some item) :
      ChainMoves b src w .take { w with next := w.next + 1, stream := some (s.takeItem b item) }
  | examined {w s c a} (hs : w.stream = some s) (task : s.task = .examining c) :
      ChainMoves b src w (.examined a)
        ((w.pass c.cursor (s.examine b c a).2).withStream (s.examine b c a).1)
  | recognised {w s c a} (hs : w.stream = some s) (task : s.task = .recognising c) :
      ChainMoves b src w (.recognised a)
        ((w.pass c.cursor (s.acceptTruncate b c a).2).withStream (s.acceptTruncate b c a).1)
  | timer {w s t} (hs : w.stream = some s) (armed : s.timer = some t) :
      ChainMoves b src w .timer
        (w.withStream { s.clearTimer with timedFlushes := s.timedFlushes + 1 })
  | timedFlush {w s n} (hs : w.stream = some s) (idle : s.task = .idle)
      (fired : s.timedFlushes = n + 1) :
      ChainMoves b src w .timedFlush
        (w.withStream ({ s with timedFlushes := n }).flushAndFinish)
  | flush {w s next} (hs : w.stream = some s) (task : s.task = .flushing next)
      (free : s.inflight = none) :
      ChainMoves b src w .flush (w.withStream (s.takeBatch.afterFlush b next))
  | noticeDrained {w s cursor} (hs : w.stream = some s)
      (task : s.task = .draining (.notice cursor)) (free : s.inflight = none) :
      ChainMoves b src w .drained (w.withStream
        (s.goto (if s.halted.isSome then .idle else .noticing cursor 0)))
  | haltDrained {w s status} (hs : w.stream = some s)
      (task : s.task = .draining (.halt status)) (free : s.inflight = none) :
      ChainMoves b src w .drained (w.withStream ((s.halt status).goto .idle))
  | fatal {w s} (hs : w.stream = some s) (idle : s.task = .idle) :
      ChainMoves b src w .fatal
        (w.withStream (if s.halted.isSome then s else s.startFlush b (.halt .failed)))
  | reconnect {w s n} (hs : w.stream = some s) (hn : n ≤ w.next) :
      ChainMoves b src w (.reconnect n) { w with next := n }
  | crash {w s} (hs : w.stream = some s) : ChainMoves b src w .crash { w with stream := none }

theorem ChainMoves.of_step {w w' : World γ R Sig} {e : Event R} {s : Stream γ R Sig}
    (hs : w.stream = some s) (chain : e.ofChain = true)
    (h : World.step b src w e = some w') : ChainMoves b src w e w' := by
  simp only [World.step, hs] at h
  cases e with
  | take =>
    simp only [running] at h
    split at h
    · next idle hitem => obtain rfl := Option.some.inj h; exact .take hs idle hitem
    · cases h
  | examined a =>
    simp only [running] at h
    split at h
    · next task => obtain rfl := Option.some.inj h; exact .examined hs task
    · cases h
  | recognised a =>
    simp only [running] at h
    split at h
    · next task => obtain rfl := Option.some.inj h; exact .recognised hs task
    · cases h
  | timer =>
    simp only [running] at h
    split at h
    · next armed => obtain rfl := Option.some.inj h; exact .timer hs armed
    · cases h
  | timedFlush =>
    simp only [running] at h
    split at h
    · next idle fired => obtain rfl := Option.some.inj h; exact .timedFlush hs idle fired
    · cases h
  | flush =>
    simp only [running] at h
    split at h
    · next task free => obtain rfl := Option.some.inj h; exact .flush hs task free
    · cases h
  | drained =>
    simp only [running] at h
    split at h
    · next task free => obtain rfl := Option.some.inj h; exact .noticeDrained hs task free
    · next task free => obtain rfl := Option.some.inj h; exact .haltDrained hs task free
    · cases h
  | fatal =>
    simp only [running] at h
    split at h
    · next idle => obtain rfl := Option.some.inj h; exact .fatal hs idle
    · cases h
  | reconnect n =>
    simp only [running] at h
    split at h
    · next hn => obtain rfl := Option.some.inj h; exact .reconnect hs hn
    · cases h
  | crash => obtain rfl := Option.some.inj h; exact .crash hs
  | noticed | attempted | work | checkpoint | restart => cases chain

end Inversion

/-!
## The chain's functions, and the delivery in flight

One lemma for each function a rule of the chain is made of, innermost first, so that the frame of a
rule is put together from those of its parts. The one that starts a delivery is `takeBatch`, and it
has a frame of its own.
-/

namespace Stream

/-- `s'` has the delivery, the sequence and the watermark of `s`, and a stop is not undone. -/
structure SameDelivery (s s' : Stream γ R Sig) : Prop where
  seq : s'.seq = s.seq
  watermark : s'.watermark = s.watermark
  inflight : s'.inflight = s.inflight
  halted : s'.halted = none → s.halted = none

theorem SameDelivery.refl (s : Stream γ R Sig) : SameDelivery s s := ⟨rfl, rfl, rfl, id⟩

theorem SameDelivery.trans {s t u : Stream γ R Sig} (h₁ : SameDelivery s t)
    (h₂ : SameDelivery t u) : SameDelivery s u :=
  ⟨h₂.seq.trans h₁.seq, h₂.watermark.trans h₁.watermark, h₂.inflight.trans h₁.inflight,
    fun h => h₁.halted (h₂.halted h)⟩

theorem halt_halted (s : Stream γ R Sig) (status : HaltStatus) : (s.halt status).halted ≠ none := by
  unfold halt
  split
  · next h => exact fun e => by simp [e] at h
  · simp

theorem sameDelivery_goto (s : Stream γ R Sig) (task : Task γ R Sig) :
    SameDelivery s (s.goto task) := ⟨rfl, rfl, rfl, id⟩

theorem sameDelivery_clearTimer (s : Stream γ R Sig) : SameDelivery s s.clearTimer :=
  ⟨rfl, rfl, rfl, id⟩

theorem sameDelivery_halt (s : Stream γ R Sig) (status : HaltStatus) :
    SameDelivery s (s.halt status) := by
  unfold halt
  split
  · exact .refl s
  · exact ⟨rfl, rfl, rfl, fun h => absurd h (by simp)⟩

theorem sameDelivery_scheduleFlush (s : Stream γ R Sig) : SameDelivery s s.scheduleFlush := by
  unfold scheduleFlush
  split
  · exact .refl s
  · exact ⟨rfl, rfl, rfl, id⟩

theorem sameDelivery_notePosition (s : Stream γ R Sig) (cursor : γ) :
    SameDelivery s (s.notePosition b cursor) := by
  have extended : SameDelivery s (s.extendTo cursor) := ⟨rfl, rfl, rfl, id⟩
  unfold notePosition
  split
  · exact .refl s
  · split
    · exact .refl s
    · exact extended.trans (sameDelivery_scheduleFlush _)

theorem sameDelivery_flushAndFinish (s : Stream γ R Sig) : SameDelivery s s.flushAndFinish := by
  unfold flushAndFinish
  split
  · exact (sameDelivery_clearTimer s).trans (sameDelivery_goto _ _)
  · exact (sameDelivery_clearTimer s).trans (sameDelivery_goto _ _)

theorem takeBatch_frame (s : Stream γ R Sig) :
    s.takeBatch.seq = s.seq ∧ s.takeBatch.watermark = s.watermark ∧
      s.takeBatch.halted = s.halted := by
  unfold Stream.takeBatch
  split
  · exact ⟨rfl, rfl, rfl⟩
  · split
    · exact ⟨rfl, rfl, rfl⟩
    · exact ⟨rfl, rfl, rfl⟩

theorem sameDelivery_joinBatch (s : Stream γ R Sig) (item : Buffered γ R Sig) :
    SameDelivery s (s.joinBatch b item) := by
  have pushed : SameDelivery s (s.push b item) := ⟨rfl, rfl, rfl, id⟩
  unfold joinBatch
  dsimp only
  split
  · exact pushed.trans (sameDelivery_flushAndFinish _)
  · exact (pushed.trans (sameDelivery_scheduleFlush _)).trans (sameDelivery_goto _ _)

theorem sameDelivery_afterFlush (s : Stream γ R Sig) (next : Then γ R Sig) :
    SameDelivery s (s.afterFlush b next) := by
  cases next with
  | done => exact sameDelivery_goto s _
  | join item => exact sameDelivery_joinBatch s item
  | emptied c =>
    simp only [afterFlush]
    split
    · exact sameDelivery_goto s _
    · exact sameDelivery_goto s _
  | notice cursor => exact sameDelivery_goto s _
  | halt status => exact sameDelivery_goto s _

theorem sameDelivery_startFlush (s : Stream γ R Sig) (next : Then γ R Sig) :
    SameDelivery s (s.startFlush b next) := by
  unfold startFlush
  split
  · exact (sameDelivery_clearTimer s).trans (sameDelivery_afterFlush _ next)
  · exact (sameDelivery_clearTimer s).trans (sameDelivery_goto _ _)

theorem sameDelivery_takeItem (s : Stream γ R Sig) (item : StreamItem γ R) :
    SameDelivery s (s.takeItem b item) := by
  cases item with
  | skip cursor => exact sameDelivery_notePosition s cursor
  | notice cursor =>
    simp only [takeItem]
    split
    · exact .refl s
    · split
      · exact .refl s
      · exact sameDelivery_startFlush s _
  | change c =>
    simp only [takeItem]
    split
    · exact .refl s
    · split
      · exact .refl s
      · split
        · exact sameDelivery_startFlush s _
        · exact sameDelivery_goto s _

theorem sameDelivery_passed (s : Stream γ R Sig) (cursor : γ) :
    SameDelivery s ((s.goto .idle).notePosition b cursor) :=
  (sameDelivery_goto s _).trans (sameDelivery_notePosition _ cursor)

theorem sameDelivery_acceptTruncate (s : Stream γ R Sig) (c : CdcChange γ R) (echo : Echo R) :
    SameDelivery s (s.acceptTruncate b c echo).1 := by
  have pushed (row : R) : SameDelivery s (s.pushTruncate c row) := ⟨rfl, rfl, rfl, id⟩
  unfold acceptTruncate
  split
  · exact sameDelivery_goto s _
  · cases echo with
    | none => exact (pushed c.row).trans (sameDelivery_flushAndFinish _)
    | drop => exact sameDelivery_passed s _
    | forward row => exact (pushed row).trans (sameDelivery_flushAndFinish _)

theorem sameDelivery_see (s : Stream γ R Sig) (c : CdcChange γ R) : SameDelivery s (s.see b c) := by
  unfold see
  split
  · exact ⟨rfl, rfl, rfl, id⟩
  · exact .refl s

variable [DecidableEq Sig]

theorem sameDelivery_acceptRow (s : Stream γ R Sig) (c : CdcChange γ R) :
    SameDelivery s (s.acceptRow b c) := by
  unfold acceptRow
  dsimp only
  split
  · exact sameDelivery_startFlush s _
  · exact sameDelivery_joinBatch s _

theorem sameDelivery_acceptMatching (s : Stream γ R Sig) (c : CdcChange γ R) (echo : Echo R) :
    SameDelivery s (s.acceptMatching b c echo).1 := by
  unfold acceptMatching
  split
  · exact sameDelivery_passed s _
  · cases echo with
    | none => exact sameDelivery_acceptRow s c
    | drop =>
      dsimp only
      split
      · exact sameDelivery_goto s _
      · exact sameDelivery_passed s _
    | forward row =>
      dsimp only
      split
      · exact sameDelivery_goto s _
      · exact sameDelivery_acceptRow s _

theorem sameDelivery_acceptChecked (s : Stream γ R Sig) (c : CdcChange γ R) (drift : Drift)
    (echo : Echo R) : SameDelivery s (s.acceptChecked b c drift echo).1 := by
  have matching : SameDelivery s ((s.see b c).acceptMatching b c echo).1 :=
    (sameDelivery_see s c).trans (sameDelivery_acceptMatching _ c echo)
  unfold acceptChecked
  split
  · cases drift with
    | throws => exact sameDelivery_goto s _
    | stop =>
      dsimp only
      split
      · exact sameDelivery_goto s _
      · exact sameDelivery_startFlush s _
    | clear =>
      dsimp only
      split
      · exact sameDelivery_goto s _
      · exact matching
  · exact matching

theorem sameDelivery_examine (s : Stream γ R Sig) (c : CdcChange γ R) (a : Examined R) :
    SameDelivery s (s.examine b c a).1 := by
  unfold examine
  split
  · exact (sameDelivery_halt s .failed).trans (sameDelivery_goto _ _)
  · exact sameDelivery_acceptChecked s _ _ _

end Stream

/-!
## The batch

What waits is changed by `joinBatch`, `notePosition` and `takeBatch`. Going to a task, the timer and
the look at a row's columns leave it and what is in flight.
-/

section Batch

variable {s s' : Stream γ R Sig}

/-- `s'` has the batch and the delivery of `s`. -/
structure SameBatch (s s' : Stream γ R Sig) : Prop where
  buffer : s'.buffer = s.buffer
  bufferOp : s'.bufferOp = s.bufferOp
  tailCursor : s'.tailCursor = s.tailCursor
  inflight : s'.inflight = s.inflight

theorem SameBatch.trans {s'' : Stream γ R Sig} (h₁ : SameBatch s s') (h₂ : SameBatch s' s'') :
    SameBatch s s'' :=
  ⟨h₂.buffer.trans h₁.buffer, h₂.bufferOp.trans h₁.bufferOp, h₂.tailCursor.trans h₁.tailCursor,
    h₂.inflight.trans h₁.inflight⟩

theorem sameBatch_goto (s : Stream γ R Sig) (task : Task γ R Sig) : SameBatch s (s.goto task) :=
  ⟨rfl, rfl, rfl, rfl⟩

theorem sameBatch_clearTimer (s : Stream γ R Sig) : SameBatch s s.clearTimer := ⟨rfl, rfl, rfl, rfl⟩

theorem sameBatch_scheduleFlush (s : Stream γ R Sig) : SameBatch s s.scheduleFlush := by
  unfold Stream.scheduleFlush
  split
  · exact ⟨rfl, rfl, rfl, rfl⟩
  · exact ⟨rfl, rfl, rfl, rfl⟩

theorem sameBatch_see (s : Stream γ R Sig) (c : CdcChange γ R) : SameBatch s (s.see b c) := by
  unfold Stream.see
  split
  · exact ⟨rfl, rfl, rfl, rfl⟩
  · exact ⟨rfl, rfl, rfl, rfl⟩

theorem scheduleFlush_task (s : Stream γ R Sig) : s.scheduleFlush.task = s.task := by
  unfold Stream.scheduleFlush
  split
  · rfl
  · rfl

end Batch

end Syncle.Cdc
