import Syncle.Spool.Dealt

/-!
# Nothing is lost in the spool, and nothing overtakes

The steps of `Dealt`'s invariant, one event at a time. Those that break it are named by `Orderly`.
The one that loses a change is a stop between the trim of a run whose rows were parked and the store
of the sequence it ended at: the next failed run starts from the old sequence, and `park` replaces
every pending entry from that sequence on, which it takes to be "left over from such an attempt (the
saved sequence is always past everything already settled)".
-/

namespace Syncle.Spooled

open Cdc Lib

variable {γ R Sig : Type*}

/-!
## The consumer

What cuts a run off the head of the spool, delivers it, and settles it: parked or not, the run is
trimmed and its sequence stored, in that order.
-/

section Consumer

variable [LinearOrder γ] {src : List (StreamItem γ R)} {w : World γ R Sig}
variable {s : Cdc.Stream γ R Sig} {job : Job γ R Sig}

omit [LinearOrder γ] in
theorem Pending.landed {c : CdcChange γ R} (h : Pending w c) (hc : w.consumer = .busy job)
    (landed : job.trimmed = true → Landed w.base job.d) : Applied w.base c := by
  obtain ⟨job', hjob', trimmed, among⟩ := h
  obtain rfl := Consumer.busy.inj (hc.symm.trans hjob')
  exact landed trimmed c among

omit [LinearOrder γ] in
theorem item?_eq_some {e : Entry γ R Sig} {i : Buffered γ R Sig} :
    e.item? = some i ↔ e = .change i := by
  cases e with
  | change item =>
    constructor
    · rintro h
      obtain rfl := Option.some.inj h
      rfl
    · rintro h
      obtain rfl := Entry.change.inj h
      rfl
  | notice cursor =>
    constructor
    · intro h
      cases h
    · intro h
      cases h

omit [LinearOrder γ] in
theorem mem_items {run : List (Entry γ R Sig)} {i : Buffered γ R Sig} :
    i ∈ run.filterMap Entry.item? ↔ Entry.change i ∈ run := by
  rw [List.mem_filterMap]
  constructor
  · rintro ⟨e, he, hi⟩
    exact item?_eq_some.mp hi ▸ he
  · intro h
    exact ⟨_, h, rfl⟩

omit [LinearOrder γ] in
/-- Every entry of a run has the operation of its first. -/
theorem runnable_op {run : List (Entry γ R Sig)} (h : runnable run = true) :
    ∃ first rest, run = first :: rest ∧ ∀ e ∈ run, e.op = first.op := by
  cases run with
  | nil => cases h
  | cons first rest =>
    simp only [runnable, Bool.and_eq_true, List.all_eq_true, decide_eq_true_eq] at h
    refine ⟨first, rest, rfl, fun e he => ?_⟩
    rcases List.mem_cons.mp he with rfl | he
    · rfl
    · exact h.1 e he

omit [LinearOrder γ] in
theorem jobOk_start {n : ℕ} {reach : γ} {w' : World γ R Sig} (spool : w'.spool = w.spool)
    (run : runnable (w.spool.take n) = true) :
    JobOk w' (Job.start (w.spool.take n) reach w'.base.cursorOffset) := by
  obtain ⟨first, rest, hrun, same⟩ := runnable_op run
  have op : ∀ i ∈ (w.spool.take n).filterMap Entry.item?, first.changeOp? = some i.change.op := by
    intro i hi
    have sameOp := same _ (mem_items.mp hi)
    cases first with
    | change item => exact congrArg some (Spool.SpoolOp.change.inj sameOp.symm)
    | notice cursor => cases sameOp
  have started : (Job.start (w.spool.take n) reach w'.base.cursorOffset).d.op =
      first.changeOp? := by
    simp [Job.start, hrun]
  refine ⟨rfl, fun i hi => started.trans (op i hi), rfl, fun _ => ?_, ?_⟩
  · exact ⟨w.spool.drop n, by rw [spool]; exact (List.take_append_drop n w.spool).symm⟩
  · simp only [Job.start, hrun, List.head?_cons, Option.bind_some]
    cases hop : first.changeOp? with
    | some op => exact rfl
    | none =>
      -- a notice has no rows
      refine ⟨⟨fun _ => ?_, fun h => (nomatch h)⟩, fun h => (nomatch h)⟩
      rw [← hrun, List.eq_nil_iff_forall_not_mem]
      intro i hi
      have found := op i hi
      rw [hop] at found
      cases found

variable [DecidableEq Sig] {b : Bridge γ R Sig} {readable : R → Bool} {w' : World γ R Sig}

/-- The rows at hand were parked, and the run is at this phase. -/
def FailedAt (w : World γ R Sig) (phase : Outcome → ℕ → ℕ → Phase) : Prop :=
  ∃ job error targets nextSeq tries, w.consumer = .busy job ∧
    job.phase = phase (.failed error targets) nextSeq tries

theorem Safe.begin {n : ℕ} (h : Safe src w) (spooled : w.spooled = true)
    (hs : w.base.stream = some s)
    (move : w.spooling b readable src s (.begin n) = some w') : Safe src w' := by
  simp only [World.spooling] at move
  split at move
  · next last hc live hlast =>
    split at move
    · next ok =>
      obtain rfl := Option.some.inj move
      rw [Bool.and_eq_true] at ok
      have seq := (h.spooling spooled s hs).seq
      refine h.goesOn spooled hs hs (.refl _ _) rfl (.refl s) (.refl s) (fun c pends => ?_)
        fun job hjob => ?_
      · obtain ⟨job, hjob, -⟩ := pends
        rw [hc] at hjob
        cases hjob
      · obtain rfl := Consumer.busy.inj hjob
        rw [seq]
        exact jobOk_start rfl ok.1
    · cases move
  · cases move

omit [DecidableEq Sig] in
/-- The run goes on to another phase. -/
theorem Safe.toPhase {base : Cdc.World γ R Sig} {s' : Cdc.Stream γ R Sig} {phase : Phase}
    (h : Safe src w) (spooled : w.spooled = true) (hs : w.base.stream = some s)
    (hs' : base.stream = some s') (hc : w.consumer = .busy job)
    (keeps : Keeps w.base.cursorOffset w.base base)
    (next : base.next = w.base.next) (delivery : s.SameDelivery s') (chain : s.SameChain s')
    (ok : PhaseOk base job phase) :
    Safe src ((w.withBase base).goesOn (.busy { job with phase := phase })) := by
  have jobOk := (h.job job hc).2
  refine h.goesOn spooled hs hs' keeps next delivery chain (fun c pends => Or.inr ?_) fun j hj => ?_
  · obtain ⟨job', hjob', trimmed, among⟩ := pends
    obtain rfl := Consumer.busy.inj (hc.symm.trans hjob')
    exact ⟨_, rfl, trimmed, among⟩
  · obtain rfl := Consumer.busy.inj hj
    refine ⟨jobOk.items, jobOk.ops, jobOk.seq.trans keeps.cursorOffset.symm, jobOk.head, ?_⟩
    cases phase with
    | attempting => exact ok
    | settling outcome tries => exact ok
    | trimming outcome nextSeq tries => exact ok
    | storing outcome nextSeq tries => exact ok

omit [DecidableEq Sig] in
/-- The consumer gives up on a run that is in the spool, or at the destination. -/
theorem Safe.givesUp {base : Cdc.World γ R Sig} {s' : Cdc.Stream γ R Sig}
    (h : Safe src w) (spooled : w.spooled = true) (hs : w.base.stream = some s)
    (hs' : base.stream = some s') (hc : w.consumer = .busy job)
    (keeps : Keeps w.base.cursorOffset w.base base)
    (next : base.next = w.base.next) (delivery : s.SameDelivery s') (chain : s.SameChain s')
    (landed : job.trimmed = true → Landed w.base job.d) :
    Safe src ((w.withBase base).goesOn .idle) := by
  refine h.goesOn spooled hs hs' keeps next delivery chain (fun c pends => Or.inl ?_)
    fun j hj => nomatch hj
  have applied := keeps.applied (pends.landed hc landed)
  exact Or.inr (Or.inl applied)

omit [DecidableEq Sig] in
/-- `settle` has failed once more. -/
theorem Safe.threwAgain {base : Cdc.World γ R Sig} {s' : Cdc.Stream γ R Sig} {outcome : Outcome}
    {tries : ℕ} (h : Safe src w) (spooled : w.spooled = true) (hs : w.base.stream = some s)
    (hc : w.consumer = .busy job) (keeps : Keeps w.base.cursorOffset w.base base)
    (next : base.next = w.base.next) (delivery : s.SameDelivery s') (chain : s.SameChain s')
    (ok : OutcomeOk base job.d outcome) (landed : job.trimmed = true → Landed w.base job.d) :
    Safe src ((w.withBase base).settleThrew s' job outcome tries) := by
  unfold World.settleThrew
  split
  · have settling : PhaseOk base job (.settling outcome (tries + 1)) :=
      ⟨ok, fun ht => (landed ht).mono keeps⟩
    exact h.toPhase spooled hs rfl hc (keeps.trans (keeps_withStream _)) next delivery chain settling
  · have halts := s'.sameChain_halt .failed
    refine h.givesUp spooled hs rfl hc (keeps.trans (keeps_withStream _)) next
      (delivery.trans (s'.sameDelivery_halt .failed)) ?_ landed
    exact ⟨halts.buffer.trans chain.buffer, halts.bufferOp.trans chain.bufferOp,
      halts.tailCursor.trans chain.tailCursor, halts.task.trans chain.task⟩

theorem Safe.attempted {outcome : Outcome} (h : Safe src w) (spooled : w.spooled = true)
    (hs : w.base.stream = some s)
    (move : w.spooling b readable src s (.attempted outcome) = some w') : Safe src w' := by
  simp only [World.spooling] at move
  split at move
  case h_2 => cases move
  next job hc =>
    have jobOk := (h.job job hc).2
    have untrimmed (at_phase : job.phase = .attempting) : job.trimmed = false := by
      have phase := jobOk.phase
      rw [at_phase] at phase
      exact phase
    split at move
    · next phase =>
      obtain rfl := Option.some.inj move
      -- the batch is at the destination under its own operation
      have keeps : Keeps w.base.cursorOffset w.base { w.base with
          dest := w.base.dest ++ [{ op := job.d.op, items := job.d.items }] } :=
        ⟨rfl, rfl, fun _ h => h, fun _ h => List.mem_append_left _ h, fun _ h _ => h⟩
      have landed : Landed { w.base with
          dest := w.base.dest ++ [{ op := job.d.op, items := job.d.items }] } job.d := by
        rintro c ⟨i, hi, copy⟩
        refine ⟨_, List.mem_append_right _ (List.mem_singleton_self _), ?_, i, hi, copy⟩
        exact (jobOk.ops i hi).trans (congrArg some copy.1)
      exact h.toPhase spooled hs hs hc keeps rfl (.refl s) (.refl s)
        ⟨⟨fun h => (nomatch h), fun _ => landed⟩, fun _ => landed⟩
    · next error targets phase =>
      obtain rfl := Option.some.inj move
      refine h.toPhase spooled hs hs hc (.refl _ w.base) rfl (.refl s) (.refl s)
        ⟨⟨fun h => (nomatch h), fun h => (nomatch h)⟩, fun ht => ?_⟩
      rw [untrimmed phase] at ht
      cases ht
    · cases move

omit [DecidableEq Sig] in
theorem workEnds {outcome : Outcome} {a : Worked} {base : Cdc.World γ R Sig}
    {s' : Cdc.Stream γ R Sig} {r : Work} (h : Safe src w) (spooled : w.spooled = true)
    (hs : w.base.stream = some s) (hc : w.consumer = .busy job)
    (ok : OutcomeOk w.base job.d outcome) (hw : w.runWork b s job outcome a = (base, s', r)) :
    WorkEnds job.d w.base s base s' r := by
  have jobOk := (h.job job hc).2
  have seq : job.d.seq = s.seq := jobOk.seq.trans (h.spooling spooled s hs).seq.symm
  cases outcome with
  | nothing =>
    simp only [World.runWork, Prod.mk.injEq] at hw
    obtain ⟨rfl, rfl, rfl⟩ := hw
    refine ⟨rfl, .refl _ _, .refl s, .refl s, fun h => ?_, fun n hn => ?_⟩
    · split at h
      · cases h
      · cases h
    · split at hn
      · obtain rfl := Work.next.inj hn
        refine ⟨Nat.le_succ _, rfl, fun c hc => ?_⟩
        obtain ⟨i, hi, -⟩ := hc
        rw [ok.1 rfl] at hi
        cases hi
      · cases hn
  | success =>
    simp only [World.runWork] at hw
    exact runWork_spec seq jobOk.ops ok.1 ok.2 hw
  | failed error targets =>
    simp only [World.runWork] at hw
    exact runWork_spec seq jobOk.ops ok.1 ok.2 hw

theorem Safe.work {a : Worked} (h : Safe src w) (spooled : w.spooled = true)
    (hs : w.base.stream = some s) (move : w.spooling b readable src s (.work a) = some w') :
    Safe src w' := by
  simp only [World.spooling] at move
  split at move
  case h_2 => cases move
  next job hc =>
    have jobOk := (h.job job hc).2
    split at move
    case h_2 => cases move
    next outcome tries at_phase =>
      have phase := jobOk.phase
      rw [at_phase] at phase
      obtain ⟨ok, landed⟩ := phase
      split at move
      · obtain rfl := Option.some.inj move
        exact h.givesUp spooled hs hs hc (.refl _ w.base) rfl (.refl s) (.refl s) landed
      · split at move
        · next hw =>
          obtain rfl := Option.some.inj move
          have ends := workEnds h spooled hs hc ok hw
          have keeps := jobOk.seq ▸ ends.keeps
          exact h.threwAgain spooled hs hc keeps ends.sameNext ends.delivery ends.chain
            (ok.mono keeps) landed
        · next base s' hw =>
          obtain rfl := Option.some.inj move
          have ends := workEnds h spooled hs hc ok hw
          have keeps := jobOk.seq ▸ ends.keeps
          exact h.givesUp spooled hs rfl hc (keeps.trans (keeps_withStream _)) ends.sameNext
            ends.delivery ends.chain landed
        · next base s' seq hw =>
          obtain rfl := Option.some.inj move
          have ends := workEnds h spooled hs hc ok hw
          have keeps := jobOk.seq ▸ ends.keeps
          obtain ⟨hle, -, covered⟩ := ends.next seq rfl
          have landed' : job.trimmed = true → Landed base job.d := fun ht => (landed ht).mono keeps
          have settled : PhaseOk base job (.trimming outcome seq tries) :=
            ⟨ok.mono keeps, landed', hle, covered⟩
          exact h.toPhase spooled hs rfl hc (keeps.trans (keeps_withStream _)) ends.sameNext
            ends.delivery ends.chain settled

omit [DecidableEq Sig] in
/-- The run leaves the spool. -/
theorem Safe.trimmed {phase : Phase} (h : Safe src w) (spooled : w.spooled = true)
    (hs : w.base.stream = some s) (hc : w.consumer = .busy job)
    (ok : PhaseOk w.base { job with trimmed := true } phase) :
    Safe src ((w.trimmed job).goesOn (.busy { job with phase := phase, trimmed := true })) := by
  have jobOk := (h.job job hc).2
  have live := h.spooling spooled s hs
  have covered : ∀ c, Covered w.base w.base.cursorOffset c →
      Through ((w.trimmed job).goesOn (.busy { job with phase := phase, trimmed := true })) c :=
    fun c hk => Or.inl hk
  have among : ∀ c, Among c job.d.items →
      Through ((w.trimmed job).goesOn (.busy { job with phase := phase, trimmed := true })) c :=
    fun c hk => Or.inr ⟨_, rfl, rfl, hk⟩
  have through : ∀ c, Through w c →
      Through ((w.trimmed job).goesOn (.busy { job with phase := phase, trimmed := true })) c := by
    rintro c (hk | ⟨job', hjob', -, hk⟩)
    · exact covered c hk
    · obtain rfl := Consumer.busy.inj (hc.symm.trans hjob')
      exact among c hk
  have inRun : ∀ i c, Entry.change i ∈ job.run → Copy c i → Among c job.d.items := by
    intro i c hi copy
    refine ⟨i, ?_, copy⟩
    rw [jobOk.items]
    exact mem_items.mpr hi
  cases trimmed : job.trimmed with
  | true =>
    have spool : ((w.trimmed job).goesOn
        (.busy { job with phase := phase, trimmed := true })).spool = w.spool := by
      simp [World.trimmed, World.goesOn, trimmed]
    refine h.consume spooled hs spooled hs ⟨rfl, rfl, rfl, rfl, id, .refl s⟩ rfl live.seq
      (fun c => Dealt.mono (through c) (spool.trans (List.append_nil _).symm))
      (h.inLine.mono through spool) fun j hj => ?_
    obtain rfl := Consumer.busy.inj hj
    exact ⟨jobOk.items, jobOk.ops, jobOk.seq, fun h => (nomatch h), ok⟩
  | false =>
    obtain ⟨tail, htail⟩ := jobOk.head trimmed
    have spool : ((w.trimmed job).goesOn
        (.busy { job with phase := phase, trimmed := true })).spool = tail := by
      simp [World.trimmed, World.goesOn, trimmed, htail]
    refine h.consume spooled hs spooled hs ⟨rfl, rfl, rfl, rfl, id, .refl s⟩ rfl live.seq
      (fun c hk => ?_) (fun before e after split c hc hlt => ?_) fun j hj => ?_
    · rcases hk with hk | ⟨i, hi, copy⟩
      · exact Or.inl (through c hk)
      · rw [htail] at hi
        rcases List.mem_append.mp hi with hi | hi
        · exact Or.inl (among c (inRun i c hi copy))
        · exact Or.inr ⟨i, spool ▸ hi, copy⟩
    · -- what stood before it in the run is in the run now
      have whole : w.spool = (job.run ++ before) ++ e :: after := by
        rw [htail, ← spool, split, List.append_assoc]
      rcases h.inLine _ e after whole c hc hlt with hk | ⟨i, hi, copy⟩
      · exact Or.inl (through c hk)
      · rcases List.mem_append.mp hi with hi | hi
        · exact Or.inl (among c (inRun i c hi copy))
        · exact Or.inr ⟨i, hi, copy⟩
    · obtain rfl := Consumer.busy.inj hj
      exact ⟨jobOk.items, jobOk.ops, jobOk.seq, fun h => (nomatch h), ok⟩

theorem Safe.trim {o : WriteOutcome} (h : Safe src w) (spooled : w.spooled = true)
    (hs : w.base.stream = some s) (orderly : o = .unseen → ¬ FailedAt w .trimming)
    (move : w.spooling b readable src s (.trim o) = some w') : Safe src w' := by
  simp only [World.spooling] at move
  split at move
  case h_2 => cases move
  next job hc =>
    have jobOk := (h.job job hc).2
    split at move
    case h_2 => cases move
    next outcome nextSeq tries at_phase =>
      have phase := jobOk.phase
      rw [at_phase] at phase
      obtain ⟨ok, landed, hle, covered⟩ := phase
      cases o with
      | ok =>
        obtain rfl := Option.some.inj move
        exact h.trimmed spooled hs hc ⟨ok, rfl, hle, covered⟩
      | refused =>
        obtain rfl := Option.some.inj move
        exact h.threwAgain spooled hs hc (.refl _ w.base) rfl (.refl s) (.refl s) ok landed
      | unseen =>
        obtain rfl := Option.some.inj move
        -- the rows were not parked, so they are at the destination
        have well : ∀ error targets, outcome ≠ .failed error targets := by
          rintro error targets rfl
          exact orderly rfl ⟨job, error, targets, nextSeq, tries, hc, at_phase⟩
        have landed := landed_of_outcomeOk ok well
        have trimming : PhaseOk w.base { job with trimmed := true } job.phase := by
          rw [at_phase]
          exact ⟨ok, fun _ => landed, hle, covered⟩
        have gone := h.trimmed spooled hs hc trimming
        exact gone.threwAgain spooled hs rfl (.refl _ w.base) rfl (.refl s) (.refl s) ok
          fun _ => landed

theorem Safe.save {ok : Bool} (h : Safe src w) (spooled : w.spooled = true)
    (hs : w.base.stream = some s) (orderly : ok = false → ¬ FailedAt w .storing)
    (move : w.spooling b readable src s (.save ok) = some w') : Safe src w' := by
  simp only [World.spooling] at move
  split at move
  case h_2 => cases move
  next job hc =>
    have jobOk := (h.job job hc).2
    split at move
    case h_2 => cases move
    next outcome nextSeq tries at_phase =>
      have phase := jobOk.phase
      rw [at_phase] at phase
      obtain ⟨outcomeOk, trimmed, hle, covered⟩ := phase
      rw [jobOk.seq] at hle
      cases ok with
      | true =>
        obtain rfl := Option.some.inj move
        have through : ∀ c, Through w c → Through
            (((w.withBase { w.base with cursorOffset := nextSeq }).withStream
              { s with seq := nextSeq }).goesOn .idle) c := by
          rintro c (hk | ⟨job', hjob', -, hk⟩)
          · exact Or.inl (hk.mono hle)
          · obtain rfl := Consumer.busy.inj (hc.symm.trans hjob')
            exact Or.inl (covered c hk)
        exact h.consume spooled hs spooled rfl ⟨rfl, rfl, rfl, rfl, id, ⟨rfl, rfl, rfl, rfl⟩⟩
          rfl rfl (fun c => Dealt.mono (through c) (List.append_nil _).symm)
          (h.inLine.mono through rfl) fun j hj => nomatch hj
      | false =>
        obtain rfl := Option.some.inj move
        have well : ∀ error targets, outcome ≠ .failed error targets := by
          rintro error targets rfl
          exact orderly rfl ⟨job, error, targets, nextSeq, tries, hc, at_phase⟩
        exact h.threwAgain spooled hs hc (.refl _ w.base) rfl (.refl s) (.refl s) outcomeOk
          fun _ => landed_of_outcomeOk outcomeOk well

theorem Safe.throw (h : Safe src w) (spooled : w.spooled = true) (hs : w.base.stream = some s)
    (move : w.spooling b readable src s .throw = some w') : Safe src w' := by
  simp only [World.spooling] at move
  split at move
  · next hc =>
    obtain rfl := Option.some.inj move
    refine h.goesOn spooled hs hs (.refl _ _) rfl (.refl s) (.refl s) (fun c pends => ?_)
      fun job hjob => nomatch hjob
    obtain ⟨job, hjob, -⟩ := pends
    rw [hc] at hjob
    cases hjob
  · cases move

theorem Safe.read {count : ℕ} (h : Safe src w)
    (orderly : ∀ e ∈ w.spool.take count, e.readable readable = true)
    (move : w.spooling b readable src s (.read count) = some w') : Safe src w' := by
  simp only [World.spooling] at move
  split at move
  · obtain rfl := Option.some.inj move
    rw [List.filter_eq_self.mpr orderly, List.take_append_drop]
    exact h
  · cases move

end Consumer

/-!
## The reader

What the stream hands over lands in the spool, or is delivered directly where the bridge has none.
-/

section Reader

variable [LinearOrder γ] {src : List (StreamItem γ R)} {w w' : World γ R Sig}
variable {s s' : Cdc.Stream γ R Sig} {entries : List (Entry γ R Sig)} {reach : γ}

/-- What `spoolBatch` is called with goes to the spool's end in line, and is all there is up to
where it reaches. -/
structure Handed (src : List (StreamItem γ R)) (w : World γ R Sig) (entries : List (Entry γ R Sig))
    (reach : γ) : Prop where
  inLine : ∀ before e after, entries = before ++ e :: after →
    ∀ c ∈ changes src, c.cursor < e.cursor → Dealt w c ∨ ∃ i, Entry.change i ∈ before ∧ Copy c i
  reach : ∀ c ∈ changes src, c.cursor ≤ reach →
    Dealt w c ∨ ∃ i, Entry.change i ∈ entries ∧ Copy c i

theorem SpoolLive.handed (h : SpoolLive src w s) (hand : handed s = some (entries, reach))
    (going : w.handing = .appending 0 → s.halted = none) : Handed src w entries reach := by
  unfold Spooled.handed at hand
  split at hand
  · next d hd =>
    obtain ⟨rfl, rfl⟩ := Prod.mk.inj (Option.some.inj hand)
    constructor
    · intro before e after split c hc hlt
      obtain ⟨front, back, hitems, rfl, hback⟩ := List.map_eq_append_iff.mp split
      obtain ⟨i, rest, rfl, rfl, -⟩ := List.map_eq_cons_iff.mp hback
      rcases h.inLine d hd front i rest hitems c hc hlt with dealt | ⟨j, hj, copy⟩
      · exact Or.inl dealt
      · exact Or.inr ⟨j, List.mem_map_of_mem hj, copy⟩
    · intro c hc hle
      rcases h.reach d hd c hc hle with dealt | ⟨i, hi, copy⟩
      · exact Or.inl dealt
      · exact Or.inr ⟨i, List.mem_map_of_mem hi, copy⟩
  · next cursor t free task =>
    obtain ⟨rfl, rfl⟩ := Prod.mk.inj (Option.some.inj hand)
    have upTo : DealtUpTo src w cursor := by
      by_cases first : w.handing = .appending 0
      · -- the batch before the notice has been handed over, and the next is empty
        have flow := h.flow (going first)
        obtain ⟨kept, empty, -⟩ := flow.taskOk task
        intro c hc hle
        rcases kept c hc hle with dealt | ⟨d, hd, -⟩ | ⟨i, hi, -⟩
        · exact dealt
        · rw [free] at hd
          cases hd
        · rw [flow.batched.empty empty] at hi
          cases hi
      · exact h.noticed cursor t free task first
    constructor
    · intro before e after split c hc hlt
      have mem : e ∈ [Entry.notice cursor] := by
        rw [split]
        simp
      obtain rfl := List.mem_singleton.mp mem
      exact Or.inl (upTo c hc (le_of_lt hlt))
    · exact fun c hc hle => Or.inl (upTo c hc hle)
  · cases hand

/-- The invariant over a step of the reader. -/
theorem Safe.readOn (h : Safe src w) (spooled' : w'.spooled = true)
    (hs' : w'.base.stream = some s') (consumer : w'.consumer = w.consumer)
    (keeps : ∀ m, Keeps m w.base w'.base) {more : List (Entry γ R Sig)}
    (spool : w'.spool = w.spool ++ more) (inLine : SpoolInLine src w')
    (live : SpoolLive src w' s') : Safe src w' where
  persisted p hp := by
    have kept : ∀ c, Dealt w c → Dealt w' c := fun c => Dealt.mono
      (Through.mono (keeps _) fun pends => Or.inr (pends.congr consumer)) spool
    exact (h.persisted p ((keeps 0).cursorJson ▸ hp)).mono kept
  inLine := inLine
  job j hj := ⟨spooled', (h.job j (consumer ▸ hj)).2.mono keeps spool⟩
  spooling _ t ht := by
    obtain rfl := Option.some.inj (hs'.symm.trans ht)
    exact live
  direct off := by
    rw [spooled'] at off
    cases off

/-- `spoolBatch` returns: what it was called with is in the spool, or the stream is stopped. -/
theorem Safe.handsOver (h : Safe src w) (spooled : w.spooled = true) (hs : w.base.stream = some s)
    (hand : handed s = some (entries, reach)) (delivery : s.SameDelivery s')
    (chain : s.SameChain s') (done : s'.halted = none → w.handing = .storing) :
    Safe src (w.handsOver s') := by
  have live := h.spooling spooled s hs
  have kept : ∀ c, Dealt w c → Dealt (w.handsOver s') c := fun _ hk => hk
  refine h.readOn spooled rfl rfl keeps_withStream (List.append_nil _).symm h.inLine ?_
  unfold handedOver
  cases hd : s.inflight with
  | some d =>
    rw [delivery.inflight, hd]
    dsimp only
    have items (live' : s'.halted = none) := (live.stored (done live') d hd).2
    refine ⟨delivery.seq.trans live.seq, fun m hm => live.mark m (delivery.watermark ▸ hm),
      fun _ h => (nomatch h), fun _ h => (nomatch h), fun h => (nomatch h),
      fun _ _ _ _ h => absurd rfl h, fun _ _ => rfl, fun live' => ?_, fun live' => ?_⟩
    · refine (live.flow (delivery.halted live')).carry (Nat.le_refl _) (fun c hk => ?_)
        ⟨chain.buffer, chain.bufferOp, chain.tailCursor, chain.task⟩ fun _ => rfl
      rcases hk with dealt | ⟨d', hd', among⟩ | buffered
      · exact Or.inl dealt
      · obtain rfl := Option.some.inj (hd.symm.trans hd')
        exact Or.inl (items live' c among)
      · exact Or.inr (Or.inr (chain.buffer.symm ▸ buffered))
    · refine (live.lined (delivery.halted live')).carry chain.buffer fun c hk => ?_
      rcases hk with dealt | ⟨d', hd', among⟩
      · exact Or.inl dealt
      · obtain rfl := Option.some.inj (hd.symm.trans hd')
        exact Or.inl (items live' c among)
  | none =>
    rw [delivery.inflight, hd]
    dsimp only
    obtain ⟨cursor, t, task⟩ : ∃ cursor t, s.task = .noticing cursor t := by
      unfold handed at hand
      rw [hd] at hand
      split at hand
      · next h => cases h
      · next cursor t _ task => exact ⟨cursor, t, task⟩
      · cases hand
    have free : (s'.goto .idle).inflight = none := delivery.inflight.trans hd
    refine ⟨delivery.seq.trans live.seq, fun m hm => live.mark m (delivery.watermark ▸ hm),
      fun d hd => ?_, fun d hd => ?_, fun h => (nomatch h), fun _ _ _ _ h => absurd rfl h,
      fun _ _ => rfl, fun live' => ?_, fun live' => ?_⟩
    · rw [free] at hd
      cases hd
    · rw [free] at hd
      cases hd
    · have flow := live.flow (delivery.halted live')
      have idle := flow_idle flow.batched (flow.readAt task id)
      refine idle.carry (Nat.le_refl _) (fun c hk => ?_)
        ⟨chain.buffer, chain.bufferOp, chain.tailCursor, rfl⟩ fun _ => free
      rcases hk with dealt | ⟨d, hd', -⟩ | buffered
      · exact Or.inl dealt
      · rw [show (s.goto .idle).inflight = s.inflight from rfl, hd] at hd'
        cases hd'
      · exact Or.inr (Or.inr (chain.buffer.symm ▸ buffered))
    · exact (live.lined (delivery.halted live')).congr chain.buffer delivery.inflight

omit [LinearOrder γ] in
/-- The commands of a pipeline that landed, if what was refused comes last. -/
theorem landing_prefix {landed : List Bool} (hlength : landed.length = entries.length)
    (order : landed.Pairwise fun x y => y = true → x = true) :
    ∃ rest, entries = landing entries landed ++ rest := by
  induction entries generalizing landed with
  | nil => exact ⟨[], by simp [landing]⟩
  | cons e entries ih =>
    cases landed with
    | nil => cases hlength
    | cons yes landed =>
      obtain ⟨first, later⟩ := List.pairwise_cons.mp order
      cases yes with
      | true =>
        obtain ⟨rest, hrest⟩ := ih (Nat.succ.inj hlength) later
        refine ⟨rest, ?_⟩
        rw [show landing (e :: entries) (true :: landed) = e :: landing entries landed from rfl,
          List.cons_append, ← hrest]
      | false =>
        -- nothing after it landed
        have none : ∀ y ∈ landed, y = false := fun y hy => by
          cases y with
          | true => exact (first true hy rfl).symm
          | false => rfl
        refine ⟨e :: entries, ?_⟩
        have empty : landing (e :: entries) (false :: landed) = [] := by
          simp only [landing, List.map_eq_nil_iff, List.filter_eq_nil_iff]
          intro p hp
          rw [List.zip_cons_cons, List.mem_cons] at hp
          rcases hp with rfl | hp
          · exact Bool.false_ne_true
          · rw [none _ (List.of_mem_zip hp).2]
            exact Bool.false_ne_true
        rw [empty, List.nil_append]

omit [LinearOrder γ] in
theorem landing_all {landed : List Bool} (hlength : landed.length = entries.length)
    (all : landed.all id = true) : landing entries landed = entries := by
  unfold landing
  rw [List.filter_eq_self.mpr, List.map_fst_zip (Nat.le_of_eq hlength.symm)]
  intro p hp
  exact List.all_eq_true.mp all _ (List.of_mem_zip hp).2

/-- The spool stays in line, whatever part of the batch has landed. -/
theorem SpoolInLine.append {more rest : List (Entry γ R Sig)} (h : SpoolInLine src w)
    (batch : Handed src w (more ++ rest) reach) (spool : w'.spool = w.spool ++ more)
    (through : ∀ c, Through w c → Through w' c) : SpoolInLine src w' := by
  intro before e after split c hc hlt
  rw [spool] at split
  rcases List.append_eq_append_iff.mp split with ⟨front, rfl, hmore⟩ | ⟨back, hspool, hback⟩
  · -- the entry is one of the batch
    have whole : more ++ rest = front ++ e :: (after ++ rest) := by
      rw [hmore]
      simp
    rcases batch.inLine front e _ whole c hc hlt with (hk | ⟨i, hi, copy⟩) | ⟨i, hi, copy⟩
    · exact Or.inl (through c hk)
    · exact Or.inr ⟨i, List.mem_append_left _ hi, copy⟩
    · exact Or.inr ⟨i, List.mem_append_right _ hi, copy⟩
  · cases back with
    | nil =>
      have whole : more ++ rest = [] ++ e :: (after ++ rest) := by
        rw [show more = e :: after from hback.symm]
        rfl
      rcases batch.inLine [] e _ whole c hc hlt with (hk | ⟨i, hi, copy⟩) | ⟨i, hi, -⟩
      · exact Or.inl (through c hk)
      · rw [List.append_nil] at hspool
        exact Or.inr ⟨i, hspool ▸ hi, copy⟩
      · cases hi
    | cons first back =>
      -- the entry was there before
      obtain ⟨rfl, -⟩ := List.cons.inj hback
      exact (h before e back hspool c hc hlt).imp_left (through c)

/-- Some of the batch is in the spool. -/
theorem Safe.appended {more rest : List (Entry γ R Sig)} (h : Safe src w)
    (spooled : w.spooled = true) (hs : w.base.stream = some s)
    (batch : Handed src w (more ++ rest) reach) : Safe src { w with spool := w.spool ++ more } := by
  have live := h.spooling spooled s hs
  have kept : ∀ c, Dealt w c → Dealt { w with spool := w.spool ++ more } c := fun c =>
    Dealt.mono (fun hk => hk) rfl
  refine h.readOn spooled hs rfl (fun m => .refl m _) rfl
    (h.inLine.append batch rfl fun c hk => hk) ?_
  exact live.carry kept ⟨rfl, rfl, rfl, rfl, id, .refl s⟩ live.seq

/-- The batch is in the spool as a whole, and its cursor is yet to be stored. -/
theorem Safe.stores (h : Safe src w) (spooled : w.spooled = true) (hs : w.base.stream = some s)
    (hand : handed s = some (entries, reach)) (upTo : DealtUpTo src w reach)
    (items : ∀ i, Entry.change i ∈ entries → Entry.change i ∈ w.spool) :
    Safe src { w with
      base := w.base.withStream { s with watermark := some reach }, handing := .storing } := by
  have live := h.spooling spooled s hs
  refine h.readOn spooled rfl rfl keeps_withStream (List.append_nil _).symm h.inLine ?_
  refine ⟨live.seq, fun m hm => ?_, live.reach, live.inLine, fun _ d hd => ?_,
    fun cursor t hi ht _ => ?_, fun hi ht => ?_, fun hh => ?_, fun hh => ?_⟩
  · obtain rfl := Option.some.inj hm
    exact upTo
  · have hd : s.inflight = some d := hd
    unfold Spooled.handed at hand
    rw [hd] at hand
    obtain ⟨rfl, rfl⟩ := Prod.mk.inj (Option.some.inj hand)
    refine ⟨upTo, fun c hc => ?_⟩
    obtain ⟨i, hi, copy⟩ := hc
    exact Or.inr ⟨i, items i (List.mem_map_of_mem hi), copy⟩
  · unfold Spooled.handed at hand
    rw [show s.inflight = none from hi, show s.task = .noticing cursor t from ht] at hand
    obtain ⟨-, rfl⟩ := Prod.mk.inj (Option.some.inj hand)
    exact upTo
  · unfold Spooled.handed at hand
    rw [show s.inflight = none from hi] at hand
    split at hand
    · next h => cases h
    · next cursor t _ task => exact absurd task (ht cursor t)
    · cases hand
  · exact (live.flow hh).carry (Nat.le_refl _) (fun _ hk => hk) ⟨rfl, rfl, rfl, rfl⟩ id
  · exact (live.lined hh).congr rfl rfl

/-- The append is made again. -/
theorem Safe.appends (h : Safe src w) (spooled : w.spooled = true) (hs : w.base.stream = some s)
    (hand : handed s = some (entries, reach)) (batch : Handed src w entries reach) (tries : ℕ) :
    Safe src { w with handing := .appending tries } := by
  have live := h.spooling spooled s hs
  refine h.readOn spooled hs rfl (fun m => .refl m _) (List.append_nil _).symm h.inLine ?_
  refine ⟨live.seq, live.mark, live.reach, live.inLine, fun h => (nomatch h),
    fun cursor t hi ht _ => ?_, fun hi ht => ?_, live.flow, live.lined⟩
  · unfold Spooled.handed at hand
    rw [hi, ht] at hand
    obtain ⟨rfl, rfl⟩ := Prod.mk.inj (Option.some.inj hand)
    intro c hc hle
    rcases batch.reach c hc hle with dealt | ⟨i, hi, -⟩
    · exact dealt
    · rcases List.mem_singleton.mp hi with h
      cases h
  · unfold Spooled.handed at hand
    rw [hi] at hand
    split at hand
    · next h => cases h
    · next cursor t _ task => exact absurd task (ht cursor t)
    · cases hand

variable [DecidableEq Sig] {b : Bridge γ R Sig} {readable : R → Bool}

theorem Safe.append {landed : List Bool} {answered : Bool} (h : Safe src w)
    (spooled : w.spooled = true) (hs : w.base.stream = some s)
    (order : landed.Pairwise fun x y => y = true → x = true)
    (move : w.spooling b readable src s (.append landed answered) = some w') : Safe src w' := by
  simp only [World.spooling] at move
  split at move
  case h_2 => cases move
  next tries entries reach handing hand =>
    split at move
    · next stopped =>
      obtain rfl := Option.some.inj move
      refine h.handsOver spooled hs hand (.refl s) (.refl s) fun live => ?_
      rw [live] at stopped
      cases stopped.1
    · next going =>
      split at move
      case isFalse => cases move
      next hlength =>
        obtain rfl := Option.some.inj move
        have live := h.spooling spooled s hs
        have batch : Handed src w entries reach := live.handed hand fun first => by
          obtain rfl := Handing.appending.inj (handing.symm.trans first)
          simpa using going
        obtain ⟨rest, hrest⟩ := landing_prefix hlength order
        have landed_safe := h.appended spooled hs (hrest ▸ batch)
        have batch' : Handed src { w with spool := w.spool ++ landing entries landed } entries
            reach := by
          have kept : ∀ c, Dealt w c →
              Dealt { w with spool := w.spool ++ landing entries landed } c :=
            fun c => Dealt.mono (fun hk => hk) rfl
          exact ⟨fun before e after split c hc hlt =>
              (batch.inLine before e after split c hc hlt).imp_left (kept c),
            fun c hc hle => (batch.reach c hc hle).imp_left (kept c)⟩
        unfold World.append
        dsimp only
        split
        · next all =>
          rw [Bool.and_eq_true] at all
          have whole := landing_all hlength all.1
          have items : ∀ i, Entry.change i ∈ entries →
              Entry.change i ∈ w.spool ++ landing entries landed := fun i hi =>
            List.mem_append_right _ (whole.symm ▸ hi)
          refine landed_safe.stores spooled hs hand (fun c hc hle => ?_) items
          rcases batch'.reach c hc hle with dealt | ⟨i, hi, copy⟩
          · exact dealt
          · exact Or.inr ⟨i, items i hi, copy⟩
        · split
          · exact landed_safe.appends spooled hs hand batch' _
          · exact landed_safe.handsOver spooled hs hand (s.sameDelivery_halt .failed)
              (s.sameChain_halt .failed) fun live => absurd live (s.halt_halted .failed)

omit [DecidableEq Sig] in
/-- The persisted cursor moves to where everything is dealt with. -/
theorem Safe.persists {acked : Option γ} (h : Safe src w) (spooled : w.spooled = true)
    (hs : w.base.stream = some s) (upTo : DealtUpTo src w reach) :
    Safe src (w.withBase { w.base with cursorJson := some reach, acked := acked }) where
  persisted p hp := by
    obtain rfl := Option.some.inj hp
    exact upTo
  inLine := h.inLine
  job j hj := by
    obtain ⟨on, items, ops, seq, head, phase⟩ := h.job j hj
    refine ⟨on, items, ops, seq, head, ?_⟩
    revert phase
    cases j.phase <;> exact id
  spooling _ t ht := by
    obtain rfl := Option.some.inj (hs.symm.trans ht)
    exact (h.spooling spooled s hs).carry (fun _ hk => hk) ⟨rfl, rfl, rfl, rfl, id, .refl s⟩
      (h.spooling spooled s hs).seq
  direct off := by
    exact absurd (spooled.symm.trans off) (by decide)

theorem Safe.store {written acked : Bool} (h : Safe src w) (spooled : w.spooled = true)
    (hs : w.base.stream = some s)
    (move : w.spooling b readable src s (.store written acked) = some w') : Safe src w' := by
  simp only [World.spooling] at move
  split at move
  case h_2 => cases move
  next entries reach storing hand =>
    split at move
    · obtain rfl := Option.some.inj move
      have live := h.spooling spooled s hs
      have upTo : DealtUpTo src w reach := by
        cases hd : s.inflight with
        | some d =>
          unfold handed at hand
          rw [hd] at hand
          obtain ⟨-, rfl⟩ := Prod.mk.inj (Option.some.inj hand)
          exact (live.stored storing d hd).1
        | none =>
          unfold handed at hand
          rw [hd] at hand
          split at hand
          · next h => cases h
          · next cursor t _ task =>
            obtain ⟨-, rfl⟩ := Prod.mk.inj (Option.some.inj hand)
            exact live.noticed cursor t hd task fun h => by
              rw [storing] at h
              cases h
          · cases hand
      have persisted : Safe src (w.withBase { w.base with
          cursorJson := some reach, acked := if acked then some reach else w.base.acked }) :=
        h.persists spooled hs upTo
      exact persisted.handsOver spooled hs hand (.refl s) (.refl s) fun _ => storing
    · obtain rfl := Option.some.inj move
      exact h.handsOver spooled hs hand (.refl s) (.refl s) fun _ => storing

omit [DecidableEq Sig] in
/-- A run that has left the spool is at the destination, unless its rows were parked. -/
theorem Safe.landed {job : Job γ R Sig} (h : Safe src w) (hc : w.consumer = .busy job)
    (orderly : ¬ FailedAt w .storing) (trimmed : job.trimmed = true) : Landed w.base job.d := by
  have phase := (h.job job hc).2.phase
  cases at_phase : job.phase with
  | attempting =>
    rw [at_phase] at phase
    exact absurd (trimmed.symm.trans phase) (by decide)
  | settling outcome tries =>
    rw [at_phase] at phase
    exact phase.2 trimmed
  | trimming outcome nextSeq tries =>
    rw [at_phase] at phase
    exact phase.2.1 trimmed
  | storing outcome nextSeq tries =>
    rw [at_phase] at phase
    refine landed_of_outcomeOk phase.1 ?_
    rintro error targets rfl
    exact orderly ⟨job, error, targets, nextSeq, tries, hc, at_phase⟩

/-- An event of the chain, with the spool on. -/
theorem SpoolLive.chain (ho : InOrder src) (sound : SoundCursors b) {e : Cdc.Event R}
    {base : Cdc.World γ R Sig} (h : SpoolLive src w s) (hs : w.base.stream = some s)
    (hs' : base.stream = some s') (answers : Answers b w.base e)
    (move : ChainMoves b src w.base e base) : SpoolLive src (w.withBase base) s' := by
  have keeps := move.keeps
  have frame := move.frame hs hs'
  have kept : ∀ c, Dealt w c → Dealt (w.withBase base) c := fun c => Dealt.mono
    (Through.mono (keeps _) fun pends => Or.inr pends) (List.append_nil _).symm
  have flow (live : s.halted = none) : Flow src (Dealt (w.withBase base)) w.base.next s :=
    (h.flow live).carry (Nat.le_refl _) (fun c hk => hk.imp_left (kept c)) (.refl s) id
  have lined (live : s.halted = none) : Lined src (Dealt (w.withBase base)) s :=
    (h.lined live).carry rfl fun c hk => hk.imp_left (kept c)
  have mark : ∀ m, s.watermark = some m → DealtUpTo src (w.withBase base) m := fun m hm =>
    (h.mark m hm).mono kept
  have seq : s'.seq = (w.withBase base).base.cursorOffset :=
    frame.seq.trans (h.seq.trans (keeps 0).cursorOffset.symm)
  have flow' (live : s'.halted = none) : Flow src (Dealt (w.withBase base)) base.next s' :=
    move.flow ho sound answers hs hs' live mark (fun c hc => Or.inl (Or.inl (Or.inl hc)))
      (flow (frame.halted live))
  have lined' (live : s'.halted = none) : Lined src (Dealt (w.withBase base)) s' :=
    move.lined ho hs hs' (frame.halted live) (flow (frame.halted live)) (lined (frame.halted live))
  rcases frame.inflight with ⟨same, task⟩ | ⟨free, ⟨next, task⟩, taken⟩
  · refine ⟨seq, fun m hm => mark m (frame.watermark ▸ hm), fun d hd c hc hle => ?_,
      fun d hd => (h.inLine d (same ▸ hd)).mono kept, fun hst d hd => ?_, fun cursor t hi ht hh => ?_,
      fun hi ht => ?_, flow', lined'⟩
    · exact (h.reach d (same ▸ hd) c hc hle).imp_left (kept c)
    · obtain ⟨upTo, items⟩ := h.stored hst d (same ▸ hd)
      exact ⟨upTo.mono kept, fun c hc => kept c (items c hc)⟩
    · rcases task with same_task | other
      · exact (h.noticed cursor t (same ▸ hi) (same_task ▸ ht) hh).mono kept
      · -- a notice that is only now being handed over
        exact absurd (h.fresh (same ▸ hi) other) hh
    · rcases task with same_task | other
      · exact h.fresh (same ▸ hi) fun cursor t => same_task ▸ ht cursor t
      · exact h.fresh (same ▸ hi) other
  · -- the batch is taken
    have unhanded : w.handing = .appending 0 := h.fresh free fun cursor t ht => by
      rw [task] at ht
      cases ht
    have live_of (d) (hd : s.takeBatch.inflight = some d) : s.halted = none := by
      unfold Stream.takeBatch at hd
      split at hd
      · rw [free] at hd
        cases hd
      · split at hd
        · rw [free] at hd
          cases hd
        · next live => simpa using live
    refine ⟨seq, fun m hm => mark m (frame.watermark ▸ hm), fun d hd c hc hle => ?_,
      fun d hd => ?_, fun hst => ?_, fun _ _ _ _ hh => absurd unhanded hh, fun _ _ => unhanded,
      flow', lined'⟩
    · rw [taken] at hd
      have live := live_of d hd
      exact reach_takeBatch (flow live).batched free hd c hc hle
    · rw [taken] at hd
      exact inLine_takeBatch (lined (live_of d hd)) free hd
    · exact absurd (unhanded.symm.trans hst) (by simp)

theorem Safe.chain (ho : InOrder src) (sound : SoundCursors b) {e : Cdc.Event R} (h : Safe src w)
    (spooled : w.spooled = true) (hs : w.base.stream = some s) (answers : Answers b w.base e)
    (orderly : e = .crash → ¬ FailedAt w .storing)
    (move : w.spooling b readable src s (.base e) = some w') : Safe src w' := by
  simp only [World.spooling] at move
  split at move
  case isFalse => cases move
  next chain =>
    obtain ⟨base, hbase, rfl⟩ := Option.map_eq_some_iff.mp move
    have move := ChainMoves.of_step hs chain hbase
    cases hs' : base.stream with
    | none =>
      -- a crash takes the run that was under way, and leaves the spool
      obtain rfl : e = .crash := by
        cases move with
        | crash => rfl
        | reconnect hs₀ => exact absurd (hs₀.symm.trans hs') (by simp)
        | _ => cases hs'
      simp only [Option.isNone_none, if_true]
      have keeps := move.keeps
      have through : ∀ c, Through w c →
          Covered base w.base.cursorOffset c := by
        rintro c (hk | pends)
        · exact (keeps _).covered (Nat.le_refl _) hk
        · obtain ⟨job, hc, trimmed, among⟩ := pends
          have applied := h.landed hc (orderly rfl) trimmed c among
          exact Or.inr (Or.inl ((keeps 0).applied applied))
      rw [← (keeps 0).cursorOffset] at through
      refine ⟨fun p hp c hc hle => ?_, ?_, fun job hjob => (nomatch hjob), fun _ s hs => ?_,
        fun off => ?_⟩
      · have dealt := h.persisted p ((keeps 0).cursorJson ▸ hp) c hc hle
        exact dealt.imp (fun hk => Or.inl (through c hk)) id
      · exact fun before e after split c hc hlt =>
          (h.inLine before e after split c hc hlt).imp_left fun hk => Or.inl (through c hk)
      · rw [hs'] at hs
        cases hs
      · exact absurd (spooled.symm.trans off) (by decide)
    | some s' =>
      simp only [Option.isNone_some, Bool.false_eq_true, if_false]
      have live := (h.spooling spooled s hs).chain ho sound hs hs' answers move
      have keeps := move.keeps
      have through : ∀ c, Through w c → Through (w.withBase base) c := fun c =>
        Through.mono (keeps _) fun pends => Or.inr pends
      exact h.readOn spooled hs' rfl keeps (List.append_nil _).symm (h.inLine.mono through rfl) live

end Reader

/-!
## The step

The two side by side: each of the reader's and the consumer's events keeps `Safe`, and so do the
start, the stop and the events that touch neither.
-/

section Step

variable [LinearOrder γ] [DecidableEq Sig] {src : List (StreamItem γ R)} {b : Bridge γ R Sig}
variable {readable : R → Bool} {w w' : World γ R Sig}

/-- **The step condition.** -/
def Orderly (b : Bridge γ R Sig) (readable : R → Bool) (w : World γ R Sig) : Event R → Prop
  /- no look at the schema throws, and the process does not die while the sequence of a run whose
  rows were parked is being stored -/
  | .base e => Answers b w.base e ∧ (e = .crash → ¬ FailedAt w .storing)
  /- what lands of an append is what comes first in it -/
  | .append landed _ => landed.Pairwise fun x y => y = true → x = true
  /- what is read can be read -/
  | .read count => ∀ e ∈ w.spool.take count, e.readable readable = true
  /- nor does Redis or the metadata store fail there -/
  | .trim o => o = .unseen → ¬ FailedAt w .trimming
  | .save ok => ok = false → ¬ FailedAt w .storing
  /- the spool is turned off once it is empty -/
  | .restart spooled _ => spooled = false → w.spool = []
  | _ => True

omit [LinearOrder γ] in
theorem reopen_of_restart {w w' : Cdc.World γ R Sig} {n : ℕ}
    (h : Cdc.World.step b src w (.restart n) = some w') :
    (∀ item ∈ src.take n, b.cursorAfter item.cursor w.cursorJson = false) ∧
      w' = { w with next := n, stream := some (Cdc.Stream.start w.cursorJson w.cursorOffset) } := by
  have reopen : Cdc.World.reopen b src w n = some w' := by
    unfold Cdc.World.step at h
    split at h
    · simp only [Cdc.World.running] at h
      split at h
      · split at h
        · exact h
        · cases h
      · cases h
    · exact h
  unfold Cdc.World.reopen at reopen
  split at reopen
  · next hall =>
    refine ⟨fun item hitem => ?_, (Option.some.inj reopen).symm⟩
    simpa using List.all_eq_true.mp hall item hitem
  · cases reopen

theorem Safe.start (ho : InOrder src) (sound : SoundCursors b) {spooled : Bool} {n : ℕ}
    (h : Safe src w) (orderly : spooled = false → w.spool = [])
    (move : w.start b src spooled n = some w') : Safe src w' := by
  unfold World.start at move
  split at move
  case isTrue => cases move
  next resting =>
    obtain ⟨base, hbase, rfl⟩ := Option.map_eq_some_iff.mp move
    obtain ⟨passed, rfl⟩ := reopen_of_restart hbase
    have covered : ∀ c, Through w c → Covered w.base w.base.cursorOffset c := by
      rintro c (hk | ⟨job, hjob, -⟩)
      · exact hk
      · rw [hjob] at resting
        exact absurd rfl resting
    refine ⟨fun p hp c hc hle => ?_, ?_, fun job hjob => (nomatch hjob), fun _ s hs => ?_,
      fun off => ⟨orderly off, ?_⟩⟩
    · have dealt := h.persisted p hp c hc hle
      exact dealt.imp (fun hk => Or.inl (covered c hk)) id
    · exact fun before e after split c hc hlt =>
        (h.inLine before e after split c hc hlt).imp_left fun hk => Or.inl (covered c hk)
    · obtain rfl := Option.some.inj hs
      have mark : ∀ m, w.base.cursorJson = some m → ∀ c ∈ changes src, c.cursor ≤ m →
          Covered w.base w.base.cursorOffset c ∨ Waiting w c := fun m hm c hc hle =>
        (h.persisted m hm c hc hle).imp_left (covered c)
      refine ⟨rfl, fun m hm c hc hle => ?_, fun _ h => (nomatch h), fun _ h => (nomatch h),
        fun h => (nomatch h), fun _ _ _ h => (nomatch h), fun _ _ => rfl, fun _ => ?_, fun _ => ?_⟩
      · exact (mark m hm c hc hle).imp (fun hk => Or.inl hk) id
      · refine ⟨⟨fun _ h => (nomatch h), fun _ => rfl, fun _ h => (nomatch h)⟩, trivial,
          fun _ i hi c hc => Or.inl (Or.inl ?_)⟩
        have mem : StreamItem.change c ∈ src.take n := by
          rw [List.mem_iff_getElem?]
          exact ⟨i, by rw [List.getElem?_take_of_lt hi]; exact hc⟩
        obtain ⟨p, hp, hle⟩ := sound _ _ (passed _ mem)
        have dealt := mark p hp c (mem_changes.mpr (List.mem_of_getElem? hc)) hle
        exact dealt.imp (fun hk => Or.inl hk) id
      · exact Lined.empty rfl
    · -- what waits nowhere is covered, and the direct path starts from there
      have down : Cdc.Safe src { w.base with stream := none } := by
        refine ⟨fun p hp c hc hle => ?_, fun _ h => nomatch h⟩
        rcases h.persisted p hp c hc hle with hk | ⟨i, hi, -⟩
        · exact covered c hk
        · rw [orderly off] at hi
          cases hi
      have reopens : Cdc.World.step b src { w.base with stream := none } (.restart n) = some
          { w.base with
            next := n, stream := some (Cdc.Stream.start w.base.cursorJson w.base.cursorOffset) } := by
        simp only [Cdc.World.step, Cdc.World.reopen]
        rw [if_pos]
        rw [List.all_eq_true]
        intro item hitem
        simp [passed item hitem]
      have answers : Answers b { w.base with stream := none } (.restart n) := by
        intro s c a hs
        cases hs
      exact down.step ho sound answers reopens

omit [LinearOrder γ] in
/-- An event is a start, a step with the spool on, or a step of the direct path. -/
theorem step_cases {e : Event R} (h : World.step b readable src w e = some w') :
    (∃ spooled n, e = .restart spooled n ∧ w.start b src spooled n = some w') ∨
      (∃ s, w.base.stream = some s ∧ w.spooled = true ∧ w.spooling b readable src s e = some w') ∨
      ∃ e' base, e = .base e' ∧ w.spooled = false ∧ Cdc.World.step b src w.base e' = some base ∧
        w' = { w with base := base } := by
  unfold World.step at h
  split at h
  · exact Or.inl ⟨_, _, rfl, h⟩
  · split at h
    · cases h
    · next s hs =>
      split at h
      · next on => exact Or.inr (Or.inl ⟨s, hs, on, h⟩)
      · next off =>
        have off : w.spooled = false := by simpa using off
        split at h
        · cases h
        · obtain ⟨base, hbase, rfl⟩ := Option.map_eq_some_iff.mp h
          exact Or.inr (Or.inr ⟨_, base, rfl, off, hbase, rfl⟩)
        · cases h

/-- A step of the direct path. -/
theorem Safe.directly (ho : InOrder src) (sound : SoundCursors b) {e : Cdc.Event R}
    {base : Cdc.World γ R Sig} (h : Safe src w) (off : w.spooled = false)
    (answers : Answers b w.base e) (move : Cdc.World.step b src w.base e = some base) :
    Safe src { w with base := base } := by
  obtain ⟨empty, direct⟩ := h.direct off
  have next := direct.step ho sound answers move
  refine ⟨fun p hp c hc hle => Or.inl (Or.inl (next.persisted p hp c hc hle)), ?_, fun job hjob => ?_,
    fun on => ?_, fun _ => ⟨empty, next⟩⟩
  · intro before e after split
    have nonempty : ([] : List (Entry γ R Sig)) = before ++ e :: after := empty.symm.trans split
    simp at nonempty
  · obtain ⟨on, -⟩ := h.job job hjob
    exact absurd (on.symm.trans off) (by decide)
  · exact absurd (off.symm.trans on) (by decide)

/-- **The step lemma.** -/
theorem Safe.step (ho : InOrder src) (sound : SoundCursors b) {e : Event R}
    (orderly : Orderly b readable w e) (h : Safe src w)
    (move : World.step b readable src w e = some w') : Safe src w' := by
  rcases step_cases move with ⟨spooled, n, rfl, start⟩ | ⟨s, hs, on, spooling⟩ |
    ⟨e', base, rfl, off, direct, rfl⟩
  · exact h.start ho sound orderly start
  · cases e with
    | base e => exact h.chain ho sound on hs orderly.1 orderly.2 spooling
    | append landed answered => exact h.append on hs orderly spooling
    | store written acked => exact h.store on hs spooling
    | read count => exact h.read orderly spooling
    | begin n => exact h.begin on hs spooling
    | attempted outcome => exact h.attempted on hs spooling
    | work a => exact h.work on hs spooling
    | trim o => exact h.trim on hs orderly spooling
    | save ok => exact h.save on hs orderly spooling
    | throw => exact h.throw on hs spooling
    | restart spooled n => cases spooling
  · exact h.directly ho sound off orderly.1 direct

omit [DecidableEq Sig] in
theorem safe_fresh (spooled : Bool) : Safe src (World.fresh spooled : World γ R Sig) := by
  refine ⟨fun _ h => (nomatch h), ?_, fun _ h => (nomatch h), fun _ s hs => ?_,
    fun _ => ⟨rfl, Cdc.safe_fresh⟩⟩
  · intro before e after split
    have nonempty : ([] : List (Entry γ R Sig)) = before ++ e :: after := split
    simp at nonempty
  · obtain rfl := Option.some.inj hs
    refine ⟨rfl, fun _ h => (nomatch h), fun _ h => (nomatch h), fun _ h => (nomatch h),
      fun h => (nomatch h), fun _ _ _ h => (nomatch h), fun _ _ => rfl, fun _ => ?_, fun _ => ?_⟩
    · exact ⟨⟨fun _ h => (nomatch h), fun _ => rfl, fun _ h => (nomatch h)⟩, trivial,
        fun _ i hi => absurd hi (Nat.not_lt_zero i)⟩
    · exact Lined.empty rfl

/-- **The run lemma.** -/
theorem safe_of_run (ho : InOrder src) (sound : SoundCursors b) {spooled : Bool}
    {es : List (Event R)}
    (run : Run (World.step b readable src) (Orderly b readable) (World.fresh spooled) es w) :
    Safe src w :=
  run.invariant (safe_fresh spooled) fun _ _ _ orderly h move => h.step ho sound orderly move

end Step

/-!
## The statement

What `Safe` comes to for the changes themselves, in every state a run reaches.
-/

section Statement

variable [LinearOrder γ] [DecidableEq Sig]

/-- Behind the persisted cursor every change waits in the spool or is accounted for, and what goes
to the destination has left nothing older waiting. -/
structure NothingLostOrOvertaken (b : Bridge γ R Sig) (readable : R → Bool)
    (src : List (StreamItem γ R)) (w : World γ R Sig) : Prop where
  lost : ∀ p, w.base.cursorJson = some p →
    ∀ c ∈ changes src, c.cursor ≤ p → Waiting w c ∨ Accounted w.base c
  overtaken : ∀ e, (World.step b readable src w e).isSome → ∀ x ∈ delivering w e,
    ∀ c ∈ changes src, Waiting w c → c.cursor < x → c.cursor ∈ delivering w e ∨ Accounted w.base c

/-- …at every state of every run whose steps meet `ok`. -/
def KeepsItsPlace (b : Bridge γ R Sig) (readable : R → Bool) (src : List (StreamItem γ R))
    (ok : World γ R Sig → Event R → Prop) : Prop :=
  ∀ spooled es w, Run (World.step b readable src) ok (World.fresh spooled) es w →
    NothingLostOrOvertaken b readable src w

variable {b : Bridge γ R Sig} {readable : R → Bool} {src : List (StreamItem γ R)}
variable {w : World γ R Sig}

omit [DecidableEq Sig] in
theorem Safe.accounted (h : Safe src w) {c : CdcChange γ R} (hk : Through w c) :
    Accounted w.base c :=
  hk.accounted fun job hjob => (h.job job hjob).2

theorem Safe.nothingLostOrOvertaken (h : Safe src w) : NothingLostOrOvertaken b readable src w where
  lost p hp c hc hle := by
    rcases h.persisted p hp c hc hle with hk | waiting
    · exact Or.inr (h.accounted hk)
    · exact Or.inl waiting
  overtaken e he x hx c hc waiting hlt := by
    clear he
    unfold delivering at hx ⊢
    split at hx
    · next n =>
      split at hx
      · next on =>
        obtain ⟨entry, hentry, rfl⟩ := List.mem_map.mp hx
        obtain ⟨before, after, split⟩ := List.append_of_mem hentry
        have whole : w.spool = before ++ entry :: (after ++ w.spool.drop n) := by
          rw [← List.cons_append, ← List.append_assoc, ← split, List.take_append_drop]
        rcases h.inLine before entry _ whole c hc hlt with hk | ⟨i, hi, copy⟩
        · exact Or.inr (h.accounted hk)
        · refine Or.inl ?_
          rw [if_pos on, ← copy.2]
          have mem : Entry.change i ∈ w.spool.take n := split ▸ List.mem_append_left _ hi
          exact List.mem_map_of_mem mem
      · cases hx
    · split at hx
      · cases hx
      · next off =>
        obtain ⟨i, hi, -⟩ := waiting
        rw [(h.direct (by simpa using off)).1] at hi
        cases hi
    · cases hx

/-- **Nothing is lost, and nothing overtakes**, in a run in which every step is orderly. -/
theorem keepsItsPlace_of_orderly (b : Bridge γ R Sig) (readable : R → Bool)
    (src : List (StreamItem γ R)) (ho : InOrder src) (sound : SoundCursors b) :
    KeepsItsPlace b readable src (Orderly b readable) :=
  fun _ _ _ run => (safe_of_run ho sound run).nothingLostOrOvertaken

/-- Nothing fails where a failure is not orderly. -/
def Event.quiet : Event R → Bool
  | .base (.examined a) => a.drift ≠ .throws
  | .base .crash => false
  | .base _ => true
  | .append landed _ => landed.all id
  | .trim o => o ≠ .unseen
  | .save ok => ok
  | .restart spooled _ => spooled
  | _ => true

omit [LinearOrder γ] in
/-- A run in which every event is quiet, and every row readable. -/
theorem run_of_quiet {w' : World γ R Sig} {es : List (Event R)} (all : ∀ row, readable row = true)
    (h : runEvents (World.step b readable src) w es = some w') (quiet : ∀ e ∈ es, e.quiet = true) :
    Run (World.step b readable src) (Orderly b readable) w es w' := by
  induction es generalizing w with
  | nil =>
    obtain rfl : w = w' := by simpa [runEvents] using h
    exact .nil w
  | cons e es ih =>
    obtain ⟨u, hu, rest⟩ := Option.bind_eq_some_iff.mp h
    refine .cons ?_ hu (ih rest fun e he => quiet e (List.mem_cons_of_mem _ he))
    have here := quiet e List.mem_cons_self
    cases e with
    | base e =>
      cases e with
      | examined a =>
        have answers : a.drift ≠ .throws := by simpa [Event.quiet] using here
        refine ⟨?_, fun h => (by cases h)⟩
        rintro s c a' - - h ⟨c', -, -, throws⟩
        obtain rfl := Cdc.Event.examined.inj h
        exact answers throws
      | crash => cases here
      | _ => exact ⟨fun _ _ _ _ _ h => (by cases h), fun h => (by cases h)⟩
    | append landed answered =>
      simp only [Event.quiet, List.all_eq_true] at here
      exact List.pairwise_of_forall_mem_list fun x hx _ _ _ => here x hx
    | read count =>
      intro e he
      cases e with
      | change item => exact all _
      | notice cursor => rfl
    | trim o =>
      rintro rfl
      cases here
    | save ok =>
      rintro rfl
      cases here
    | restart spooled n =>
      rintro rfl
      cases here
    | _ => trivial

end Statement

/-! ### A stop between the trim and the sequence

Two rows are inserted and both are refused by the destination. The first is parked at sequence 0 and
trimmed from the spool, and the process dies before `cursorOffset` moves to 1. After the restart the
second row is parked at sequence 0 as well, and takes the first one's place. -/

namespace StopAfterTrim

def bridge : Bridge Nat String Nat :=
  { SchemaLookThrows.bridge with maxBatch := 1, onError := .continue }

def src : List (StreamItem Nat String) :=
  [.change { op := .insert, row := "a", cursor := 1 },
   .change { op := .insert, row := "b", cursor := 2 }]

/-- The next change is spooled, and its cursor is stored. -/
def spooled : List (Event String) :=
  [.base .take, .base (.examined { completion := .as "", drift := .clear, echo := .none }),
   .base .flush, .append [true] true, .store true true]

/-- The first run is refused, and its row parked. -/
def parked : List (Event String) :=
  [.read 1, .begin 1, .attempted (.failed "refused" []),
   .work { recorded := true, isolation := [], counted := true, parked := .ok, recordedAfter := true }]

def stopped : List (Event String) :=
  spooled ++ parked ++ [.trim .ok, .base .crash, .restart true 1] ++ spooled ++ parked

def orderly : List (Event String) :=
  spooled ++ parked ++ [.trim .ok, .save true] ++ spooled ++ parked

theorem src_inOrder : InOrder src := by
  unfold InOrder src
  simp [StreamItem.cursor]

theorem bridge_sound : SoundCursors bridge := SchemaLookThrows.bridge_sound

/-- Where the run ends: past both changes, with one of them parked. -/
theorem end_of_stop : (runEvents (World.step bridge (fun _ => true) src) (World.fresh true)
      stopped).map (fun w => (w.base.cursorJson, w.base.passed, w.base.dest,
        w.base.deadLetters.map fun e => (e.sequence, e.rows.map fun i => i.change.cursor),
        w.spool.map Entry.cursor)) =
    some (some 2, [], [], [(0, [2])], [2]) :=
  rfl

theorem not_keepsItsPlace :
    InOrder src ∧ SoundCursors bridge ∧ ¬ KeepsItsPlace bridge (fun _ => true) src anyStep := by
  refine ⟨src_inOrder, bridge_sound, fun always => ?_⟩
  obtain ⟨w, run, hw⟩ := Option.map_eq_some_iff.mp end_of_stop
  simp only [Prod.mk.injEq] at hw
  obtain ⟨cursor, passed, dest, letters, spool⟩ := hw
  have first := (always true _ w (run_of_eval run)).lost 2 cursor
    { op := .insert, row := "a", cursor := 1 } (by decide) (by decide)
  rcases first with ⟨i, hi, -, copy⟩ | accounted
  · have mem := List.mem_map_of_mem (f := Entry.cursor) hi
    rw [spool, show Entry.cursor (.change i) = 1 from copy] at mem
    simp at mem
  · rcases accounted with h | ⟨batch, h, -⟩ | ⟨letter, h, -, i, hi, -, copy⟩
    · rw [passed] at h
      cases h
    · rw [dest] at h
      cases h
    · have mem := List.mem_map_of_mem (f := fun e : DeadLetter Nat String Nat =>
        (e.sequence, e.rows.map fun i => i.change.cursor)) h
      rw [letters, List.mem_singleton] at mem
      have rows := List.mem_map_of_mem (f := fun i : Buffered Nat String Nat => i.change.cursor) hi
      rw [(Prod.mk.inj mem).2, copy] at rows
      simp at rows

/-- In an orderly run both rows end up in the dead-letter queue. -/
theorem keepsItsPlace_orderly :
    KeepsItsPlace bridge (fun _ => true) src (Orderly bridge fun _ => true) ∧
      ∃ w, Run (World.step bridge (fun _ => true) src) (Orderly bridge fun _ => true)
        (World.fresh true) orderly w ∧ w.base.cursorJson = some 2 ∧
        w.base.deadLetters.map (fun e => e.rows.map fun i => i.change.cursor) = [[1], [2]] := by
  have shown : (runEvents (World.step bridge (fun _ => true) src) (World.fresh true) orderly).map
      (fun w => (w.base.cursorJson,
        w.base.deadLetters.map (fun e => e.rows.map fun i => i.change.cursor))) =
      some (some 2, [[1], [2]]) := rfl
  obtain ⟨w, run, hw⟩ := Option.map_eq_some_iff.mp shown
  obtain ⟨cursor, letters⟩ := Prod.mk.inj hw
  refine ⟨keepsItsPlace_of_orderly bridge (fun _ => true) src src_inOrder bridge_sound, w,
    run_of_quiet (fun _ => rfl) run ?_, cursor, letters⟩
  simp [orderly, spooled, parked, Event.quiet]

end StopAfterTrim

end Syncle.Spooled
