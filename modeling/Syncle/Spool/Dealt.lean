import Syncle.Spool.Lined
import Syncle.Spool.Stream

/-!
# Dealt with

With the spool on the cursor moves when a change is stored in the spool, so what has to hold behind
the cursor is that a change is *dealt with*: covered as on the direct path, waiting in the spool, or
in the run whose trim is not yet followed by its sequence (`Dealt`). And the spool is in line: what
comes before one of its entries is through already, or stands before it (`SpoolInLine`).

The reader and the consumer change different parts of the state. What carries the invariant over a
step of the one leaves the other's part alone: `Safe.consume` is the consumer's side, `SameReader`
what it leaves alone.
-/

namespace Syncle.Spooled

open Cdc Lib

variable {γ R Sig : Type*}

/-! ## Dealt with -/

/-- In the run whose trim is not yet followed by its sequence. -/
def Pending (w : World γ R Sig) (c : CdcChange γ R) : Prop :=
  ∃ job, w.consumer = .busy job ∧ job.trimmed = true ∧ Among c job.d.items

/-- Through the spool. -/
def Through (w : World γ R Sig) (c : CdcChange γ R) : Prop :=
  Covered w.base w.base.cursorOffset c ∨ Pending w c

def Dealt (w : World γ R Sig) (c : CdcChange γ R) : Prop := Through w c ∨ Waiting w c

/-- Everything the run holds is at the destination. -/
def Landed (w : Cdc.World γ R Sig) (d : Delivery γ R Sig) : Prop :=
  ∀ c, Among c d.items → Applied w c

/-- What is known of a run, by where its delivery stands. -/
def PhaseOk (w : Cdc.World γ R Sig) (job : Job γ R Sig) : Phase → Prop
  | .attempting => job.trimmed = false
  | .settling outcome _ => OutcomeOk w job.d outcome ∧ (job.trimmed = true → Landed w job.d)
  | .trimming outcome nextSeq _ =>
    OutcomeOk w job.d outcome ∧ (job.trimmed = true → Landed w job.d) ∧ job.d.seq ≤ nextSeq ∧
      ∀ c, Among c job.d.items → Covered w nextSeq c
  | .storing outcome nextSeq _ =>
    OutcomeOk w job.d outcome ∧ job.trimmed = true ∧ job.d.seq ≤ nextSeq ∧
      ∀ c, Among c job.d.items → Covered w nextSeq c

structure JobOk (w : World γ R Sig) (job : Job γ R Sig) : Prop where
  items : job.d.items = job.run.filterMap Entry.item?
  ops : ∀ i ∈ job.d.items, job.d.op = some i.change.op
  seq : job.d.seq = w.base.cursorOffset
  /-- until it is trimmed, the run is the spool's head -/
  head : job.trimmed = false → ∃ tail, w.spool = job.run ++ tail
  phase : PhaseOk w.base job job.phase

section Order

variable [LinearOrder γ] (src : List (StreamItem γ R))

/-- What comes before an entry of the spool is through, or stands before it. -/
def SpoolInLine (w : World γ R Sig) : Prop :=
  ∀ before e after, w.spool = before ++ e :: after →
    ∀ c ∈ changes src, c.cursor < e.cursor → Through w c ∨ ∃ i, Entry.change i ∈ before ∧ Copy c i

def DealtUpTo (w : World γ R Sig) (cursor : γ) : Prop :=
  ∀ c ∈ changes src, c.cursor ≤ cursor → Dealt w c

/-- What holds of a stream that is opened with the spool on. -/
structure SpoolLive (w : World γ R Sig) (s : Cdc.Stream γ R Sig) : Prop where
  seq : s.seq = w.base.cursorOffset
  mark : ∀ m, s.watermark = some m → DealtUpTo src w m
  reach : ∀ d, s.inflight = some d →
    ∀ c ∈ changes src, c.cursor ≤ d.reach → Dealt w c ∨ Among c d.items
  inLine : ∀ d, s.inflight = some d → InLine src (Dealt w) d.items
  /-- a batch whose cursor is being stored is in the spool -/
  stored : w.handing = .storing → ∀ d, s.inflight = some d →
    DealtUpTo src w d.reach ∧ ∀ c, Among c d.items → Dealt w c
  noticed : ∀ cursor t, s.inflight = none → s.task = .noticing cursor t →
    w.handing ≠ .appending 0 → DealtUpTo src w cursor
  fresh : s.inflight = none → (∀ cursor t, s.task ≠ .noticing cursor t) →
    w.handing = .appending 0
  flow : s.halted = none → Flow src (Dealt w) w.base.next s
  lined : s.halted = none → Lined src (Dealt w) s

/-- **The invariant.** -/
structure Safe (w : World γ R Sig) : Prop where
  persisted : ∀ p, w.base.cursorJson = some p → DealtUpTo src w p
  inLine : SpoolInLine src w
  job : ∀ job, w.consumer = .busy job → w.spooled = true ∧ JobOk w job
  spooling : w.spooled = true → ∀ s, w.base.stream = some s → SpoolLive src w s
  direct : w.spooled = false → w.spool = [] ∧ Cdc.Safe src w.base

end Order

/-! ### Carrying it over a step -/

section Carry

variable {w w' : World γ R Sig} {job : Job γ R Sig} {c : CdcChange γ R}

theorem Landed.mono {n : ℕ} {w w' : Cdc.World γ R Sig} {d : Delivery γ R Sig}
    (keeps : Keeps n w w') (h : Landed w d) : Landed w' d :=
  fun c hc => keeps.applied (h c hc)

/-- A run that went well, or holds nothing, has landed. -/
theorem landed_of_outcomeOk {w : Cdc.World γ R Sig} {d : Delivery γ R Sig} {outcome : Outcome}
    (ok : OutcomeOk w d outcome) (well : ∀ error targets, outcome ≠ .failed error targets) :
    Landed w d := by
  intro c hc
  cases outcome with
  | nothing =>
    obtain ⟨i, hi, -⟩ := hc
    rw [ok.1 rfl] at hi
    cases hi
  | success => exact ok.2 rfl c hc
  | failed error targets => exact absurd rfl (well error targets)

theorem PhaseOk.mono {w w' : Cdc.World γ R Sig} {phase : Phase} (keeps : ∀ m, Keeps m w w')
    (h : PhaseOk w job phase) : PhaseOk w' job phase := by
  cases phase with
  | attempting => exact h
  | settling outcome tries => exact ⟨h.1.mono (keeps 0), fun ht => (h.2 ht).mono (keeps 0)⟩
  | trimming outcome nextSeq tries =>
    exact ⟨h.1.mono (keeps 0), fun ht => (h.2.1 ht).mono (keeps 0), h.2.2.1, fun c hc =>
      (keeps nextSeq).covered (Nat.le_refl _) (h.2.2.2 c hc)⟩
  | storing outcome nextSeq tries =>
    exact ⟨h.1.mono (keeps 0), h.2.1, h.2.2.1, fun c hc =>
      (keeps nextSeq).covered (Nat.le_refl _) (h.2.2.2 c hc)⟩

/-- A step of the reader: nothing is taken back, and the run stays where it is. -/
theorem JobOk.mono (keeps : ∀ m, Keeps m w.base w'.base) {more : List (Entry γ R Sig)}
    (spool : w'.spool = w.spool ++ more) (h : JobOk w job) : JobOk w' job where
  items := h.items
  ops := h.ops
  seq := h.seq.trans (keeps 0).cursorOffset.symm
  head ht := by
    obtain ⟨tail, htail⟩ := h.head ht
    exact ⟨tail ++ more, by rw [spool, htail, List.append_assoc]⟩
  phase := h.phase.mono keeps

theorem Through.mono (keeps : Keeps w.base.cursorOffset w.base w'.base)
    (pending : Pending w c → Through w' c) (h : Through w c) : Through w' c := by
  rcases h with covered | pends
  · refine Or.inl ?_
    rw [keeps.cursorOffset]
    exact keeps.covered (Nat.le_refl _) covered
  · exact pending pends

theorem Pending.congr (consumer : w'.consumer = w.consumer) (h : Pending w c) : Pending w' c := by
  unfold Pending
  rw [consumer]
  exact h

theorem Waiting.append {more : List (Entry γ R Sig)} (spool : w'.spool = w.spool ++ more)
    (h : Waiting w c) : Waiting w' c := by
  obtain ⟨i, hi, copy⟩ := h
  exact ⟨i, spool ▸ List.mem_append_left _ hi, copy⟩

/-- What is dealt with stays so, if the spool only grows. -/
theorem Dealt.mono (through : Through w c → Through w' c) {more : List (Entry γ R Sig)}
    (spool : w'.spool = w.spool ++ more) (h : Dealt w c) : Dealt w' c :=
  h.imp through (Waiting.append spool)

theorem Through.accounted (h : Through w c)
    (ok : ∀ job, w.consumer = .busy job → JobOk w job) : Accounted w.base c := by
  rcases h with covered | ⟨job, hjob, trimmed, among⟩
  · exact covered.accounted
  · have phase := (ok job hjob).phase
    revert phase
    cases job.phase with
    | attempting =>
      intro (untrimmed : job.trimmed = false)
      rw [trimmed] at untrimmed
      cases untrimmed
    | settling outcome tries => exact fun phase => Or.inr (Or.inl (phase.2 trimmed c among))
    | trimming outcome nextSeq tries => exact fun phase => (phase.2.2.2 c among).accounted
    | storing outcome nextSeq tries => exact fun phase => (phase.2.2.2 c among).accounted

variable [LinearOrder γ] {src : List (StreamItem γ R)}

theorem DealtUpTo.mono (kept : ∀ c, Dealt w c → Dealt w' c) {cursor : γ}
    (h : DealtUpTo src w cursor) : DealtUpTo src w' cursor :=
  fun c hc hle => kept c (h c hc hle)

theorem SpoolInLine.mono (through : ∀ c, Through w c → Through w' c) (spool : w'.spool = w.spool)
    (h : SpoolInLine src w) : SpoolInLine src w' :=
  fun before e after split c hc hlt =>
    (h before e after (spool ▸ split) c hc hlt).imp_left (through c)

/-- The reader's part of `w` and `s` is that of `w'` and `s'`. -/
structure SameReader (w w' : World γ R Sig) (s s' : Cdc.Stream γ R Sig) : Prop where
  handing : w'.handing = w.handing
  next : w'.base.next = w.base.next
  watermark : s'.watermark = s.watermark
  inflight : s'.inflight = s.inflight
  halted : s'.halted = none → s.halted = none
  chain : s.SameChain s'

/-- A step of the consumer. -/
theorem SpoolLive.carry {s s' : Cdc.Stream γ R Sig} (h : SpoolLive src w s)
    (kept : ∀ c, Dealt w c → Dealt w' c) (same : SameReader w w' s s')
    (seq : s'.seq = w'.base.cursorOffset) : SpoolLive src w' s' where
  seq := seq
  mark m hm := (h.mark m (same.watermark ▸ hm)).mono kept
  reach d hd c hc hle := (h.reach d (same.inflight ▸ hd) c hc hle).imp_left (kept c)
  inLine d hd := (h.inLine d (same.inflight ▸ hd)).mono kept
  stored hst d hd := by
    obtain ⟨upTo, items⟩ := h.stored (same.handing ▸ hst) d (same.inflight ▸ hd)
    exact ⟨upTo.mono kept, fun c hc => kept c (items c hc)⟩
  noticed cursor t hi ht hh :=
    (h.noticed cursor t (same.inflight ▸ hi) (same.chain.task ▸ ht) (same.handing ▸ hh)).mono kept
  fresh hi ht := by
    rw [same.handing]
    exact h.fresh (same.inflight ▸ hi) fun cursor t => same.chain.task ▸ ht cursor t
  flow hh := by
    rw [same.next]
    refine (h.flow (same.halted hh)).carry (Nat.le_refl _) (fun c hk => ?_) same.chain fun free => ?_
    · rcases hk with dealt | ⟨d, hd, among⟩ | buffered
      · exact Or.inl (kept c dealt)
      · exact Or.inr (Or.inl ⟨d, same.inflight ▸ hd, among⟩)
      · exact Or.inr (Or.inr (same.chain.buffer.symm ▸ buffered))
    · rw [same.inflight]
      exact free
  lined hh := by
    refine (h.lined (same.halted hh)).carry same.chain.buffer fun c hc => ?_
    rw [same.inflight]
    exact hc.imp_left (kept c)

/-- The invariant over a step of the consumer. -/
theorem Safe.consume {s s' : Cdc.Stream γ R Sig} (h : Safe src w) (spooled : w.spooled = true)
    (hs : w.base.stream = some s) (spooled' : w'.spooled = true) (hs' : w'.base.stream = some s')
    (same : SameReader w w' s s') (cursorJson : w'.base.cursorJson = w.base.cursorJson)
    (seq : s'.seq = w'.base.cursorOffset)
    (kept : ∀ c, Dealt w c → Dealt w' c) (inLine : SpoolInLine src w')
    (job : ∀ job, w'.consumer = .busy job → JobOk w' job) : Safe src w' where
  persisted p hp := (h.persisted p (cursorJson ▸ hp)).mono kept
  inLine := inLine
  job j hj := ⟨spooled', job j hj⟩
  spooling _ t ht := by
    obtain rfl := Option.some.inj (hs'.symm.trans ht)
    exact (h.spooling spooled s hs).carry kept same seq
  direct off := by
    rw [spooled'] at off
    cases off

/-- The consumer goes on, and leaves the spool and the sequence alone. -/
theorem Safe.goesOn {s s' : Cdc.Stream γ R Sig} {base : Cdc.World γ R Sig}
    {consumer : Consumer γ R Sig} (h : Safe src w) (spooled : w.spooled = true)
    (hs : w.base.stream = some s) (hs' : base.stream = some s')
    (keeps : Keeps w.base.cursorOffset w.base base) (next : base.next = w.base.next)
    (delivery : s.SameDelivery s') (chain : s.SameChain s')
    (pending : ∀ c, Pending w c → Through ((w.withBase base).goesOn consumer) c)
    (job : ∀ job, consumer = .busy job → JobOk ((w.withBase base).goesOn consumer) job) :
    Safe src ((w.withBase base).goesOn consumer) := by
  have through : ∀ c, Through w c → Through ((w.withBase base).goesOn consumer) c :=
    fun c => Through.mono keeps (pending c)
  refine h.consume spooled hs spooled hs' ?_ keeps.cursorJson ?_ ?_ (h.inLine.mono through rfl) job
  · exact ⟨rfl, next, delivery.watermark, delivery.inflight, delivery.halted, chain⟩
  · exact delivery.seq.trans ((h.spooling spooled s hs).seq.trans keeps.cursorOffset.symm)
  · exact fun c => Dealt.mono (through c) (List.append_nil _).symm

end Carry

end Syncle.Spooled
