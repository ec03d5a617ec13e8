import Mathlib.Data.Nat.Basic
import Syncle.Lib.Run
import Syncle.Cdc.Failed

/-!
# No change is lost

What has to hold for the persisted cursor to be safe to start from: every change at or before it
is *covered*, that is at the destination, in the dead-letter queue, filtered out or dropped as an
echo.

The cursor is written by a delivery that reached it, so the invariant has to follow a position
from where it enters the pipeline. Three statements do it:

* `Batched`: everything up to the pending batch's reach is covered, in the batch, or in the
  delivery in flight (*kept*);
* `TaskOk`: so is everything before the change the chain is at;
* `Flow.read`: so is everything the provider has handed over, the change the chain is at aside.

The last one is what a change that is dropped on the floor breaks, and only what comes after
notices: the next change's reach lies beyond it. The code drops one in one place. `accept` looks at
the schema outside of any `try`; the metadata store not answering there ends in `handleChange`'s
`catch`, whose comment says that `accept` handles its own failures.
-/

namespace Syncle.Cdc

open Lib

variable {γ R Sig : Type*}

/-!
## The chain, over what is dealt with

The chain's functions are followed once, over any notion of a change that is dealt with, and used for
delivered, for parked and for written.
-/

section Chain

variable [LinearOrder γ]
variable (src : List (StreamItem γ R)) (P : CdcChange γ R → Prop)

/-- `c` is dealt with, or in the delivery in flight, or in the batch. -/
def Kept (s : Stream γ R Sig) (c : CdcChange γ R) : Prop :=
  P c ∨ (∃ d, s.inflight = some d ∧ Among c d.items) ∨ Among c s.buffer

def KeptBefore (s : Stream γ R Sig) (cursor : γ) : Prop :=
  ∀ c ∈ changes src, c.cursor < cursor → Kept P s c

def KeptUpTo (s : Stream γ R Sig) (cursor : γ) : Prop :=
  ∀ c ∈ changes src, c.cursor ≤ cursor → Kept P s c

/-- The change the caller of a `flush` goes on with. -/
def Then.holds (c : CdcChange γ R) : Then γ R Sig → Prop
  | .join i => Copy c i
  | .emptied c' => c' = c
  | _ => False

/-- The change the chain is at. -/
def Task.holds (c : CdcChange γ R) : Task γ R Sig → Prop
  | .examining c' => c' = c
  | .recognising c' => c' = c
  | .flushing next => next.holds c
  | _ => False

def Then.stopping : Then γ R Sig → Prop
  | .halt _ => True
  | _ => False

/-- The chain is on its way to a stop, and what it was at may be gone. -/
def Task.stopping : Task γ R Sig → Prop
  | .flushing next => next.stopping
  | .draining next => next.stopping
  | _ => False

structure Batched (s : Stream γ R Sig) : Prop where
  tail : ∀ t, s.tailCursor = some t → KeptUpTo src P s t
  empty : s.tailCursor = none → s.buffer = []
  ops : ∀ i ∈ s.buffer, s.bufferOp = some i.change.op

/-- What the caller of a `flush` relies on once it is over. -/
def Ready (s : Stream γ R Sig) : Then γ R Sig → Prop
  | .join i => ∃ c ∈ changes src, Copy c i ∧ KeptBefore src P s c.cursor
  | .emptied c => c ∈ changes src ∧ KeptBefore src P s c.cursor
  | .notice cursor => KeptUpTo src P s cursor
  | _ => True

def TaskOk (s : Stream γ R Sig) : Task γ R Sig → Prop
  | .examining c => c ∈ changes src ∧ KeptBefore src P s c.cursor
  | .recognising c => c ∈ changes src ∧ KeptBefore src P s c.cursor ∧ s.buffer = []
  | .flushing next => Ready src P s next
  | .draining (.notice cursor) => KeptUpTo src P s cursor ∧ s.tailCursor = none
  | .noticing cursor _ => KeptUpTo src P s cursor ∧ s.tailCursor = none ∧ s.inflight = none
  | _ => True

/-- Everything the provider has handed over, up to its item `n`, is kept or meets `extra`. -/
def ReadTo (n : Nat) (s : Stream γ R Sig) (extra : CdcChange γ R → Prop) : Prop :=
  ∀ i < n, ∀ c, src[i]? = some (.change c) → Kept P s c ∨ extra c

/-- The chain's invariant, for a stream that has not been stopped. -/
structure Flow (n : Nat) (s : Stream γ R Sig) : Prop where
  batched : Batched src P s
  task : TaskOk src P s s.task
  read : ¬ s.task.stopping → ReadTo src P n s fun c => s.task.holds c

/-- `accept` is at the change `c`. -/
structure At (n : Nat) (s : Stream γ R Sig) (c : CdcChange γ R) : Prop where
  batched : Batched src P s
  mem : c ∈ changes src
  before : KeptBefore src P s c.cursor
  read : ReadTo src P n s (· = c)

end Chain

section ChainSteps

variable {src : List (StreamItem γ R)} {P : CdcChange γ R → Prop} {n : Nat}
variable {b : Bridge γ R Sig} {s s' : Stream γ R Sig}

theorem Kept.congr (same : SameBatch s s') {c : CdcChange γ R} (h : Kept P s c) : Kept P s' c := by
  unfold Kept at h ⊢
  rw [same.inflight, same.buffer]
  exact h

theorem ReadTo.congr (same : SameBatch s s') {extra : CdcChange γ R → Prop}
    (h : ReadTo src P n s extra) : ReadTo src P n s' extra :=
  fun i hi c hc => (h i hi c hc).imp_left fun hk => hk.congr same

theorem ReadTo.all {extra : CdcChange γ R → Prop} (h : ReadTo src P n s fun _ => False) :
    ReadTo src P n s extra :=
  fun i hi c hc => (h i hi c hc).imp_right fun hf => hf.elim

theorem Kept.push {i : Buffered γ R Sig} {c : CdcChange γ R} (h : Kept P s c) :
    Kept P (s.push b i) c := by
  rcases h with hp | hf | ⟨j, hj, copy⟩
  · exact Or.inl hp
  · exact Or.inr (Or.inl hf)
  · exact Or.inr (Or.inr ⟨j, List.mem_append_left _ hj, copy⟩)

theorem kept_pushed {i : Buffered γ R Sig} {c : CdcChange γ R} (copy : Copy c i) :
    Kept P (s.push b i) c :=
  Or.inr (Or.inr ⟨i, List.mem_append_right _ (List.mem_singleton_self i), copy⟩)

/-- Taking the batch moves its rows into the delivery. -/
theorem Kept.takeBatch {c : CdcChange γ R} (free : s.inflight = none) (live : s.halted = none)
    (h : Kept P s c) : Kept P s.takeBatch c := by
  unfold Stream.takeBatch
  split
  · exact h
  · rw [live]
    rcases h with hp | ⟨d, hd, _⟩ | hi
    · exact Or.inl hp
    · rw [free] at hd
      cases hd
    · exact Or.inr (Or.inl ⟨_, rfl, hi⟩)

variable [LinearOrder γ]

theorem Flow.taskOk (h : Flow src P n s) {task : Task γ R Sig} (heq : s.task = task) :
    TaskOk src P s task := heq ▸ h.task

theorem Flow.readAt (h : Flow src P n s) {task : Task γ R Sig} (heq : s.task = task)
    (going : ¬ task.stopping) : ReadTo src P n s fun c => task.holds c := by
  subst heq
  exact h.read going

theorem Batched.congr (same : SameBatch s s') (h : Batched src P s) : Batched src P s' := by
  refine ⟨fun t ht c hc hle => ?_, fun hn => ?_, fun i hi => ?_⟩
  · exact (h.tail t (same.tailCursor ▸ ht) c hc hle).congr same
  · rw [same.buffer]
    exact h.empty (same.tailCursor ▸ hn)
  · rw [same.bufferOp]
    exact h.ops i (same.buffer ▸ hi)

theorem flow_idle (hb : Batched src P s) (read : ReadTo src P n s fun _ => False) :
    Flow src P n (s.goto .idle) :=
  ⟨hb.congr (sameBatch_goto s _), trivial, fun _ => read⟩

theorem flow_flushAndFinish (hb : Batched src P s) (read : ReadTo src P n s fun _ => False) :
    Flow src P n s.flushAndFinish := by
  have cleared := hb.congr (sameBatch_clearTimer s)
  unfold Stream.flushAndFinish
  split
  · exact ⟨cleared.congr (sameBatch_goto _ _), trivial, fun _ => read⟩
  · exact ⟨cleared.congr (sameBatch_goto _ _), trivial, fun _ => read⟩

/-- A position may be noted once everything up to it is kept. -/
theorem flow_notePosition (hb : Batched src P s) {cursor : γ} (upTo : KeptUpTo src P s cursor)
    (read : ReadTo src P n s fun _ => False) (idle : s.task = .idle) :
    Flow src P n (s.notePosition b cursor) := by
  have stays : Flow src P n s := ⟨hb, idle ▸ trivial, fun _ => read.all⟩
  unfold Stream.notePosition
  split
  · exact stays
  · split
    · exact stays
    · have same := sameBatch_scheduleFlush (s.extendTo cursor)
      have extended : Batched src P (s.extendTo cursor) := by
        refine ⟨fun t ht => ?_, fun h => (nomatch h), hb.ops⟩
        obtain rfl : cursor = t := Option.some.inj ht
        exact upTo
      refine ⟨extended.congr same, ?_, fun _ => ReadTo.congr same read.all⟩
      rw [scheduleFlush_task]
      exact (show (s.extendTo cursor).task = .idle from idle) ▸ trivial

/-! ### A change joins the batch -/

/-- What is before a change, and the change itself, is all there is up to it. -/
theorem keptUpTo_of_before (ho : InOrder src) {c : CdcChange γ R} (hc : c ∈ changes src)
    (before : KeptBefore src P s c.cursor) (here : Kept P s c) : KeptUpTo src P s c.cursor := by
  intro c' hc' hle
  rcases lt_or_eq_of_le hle with hlt | heq
  · exact before c' hc' hlt
  · obtain rfl := ho.change_inj hc' hc heq
    exact here

theorem flow_joinBatch (ho : InOrder src) (hb : Batched src P s) {i : Buffered γ R Sig}
    (ready : Ready src P s (.join i)) (read : ReadTo src P n s fun c => Copy c i)
    (op : s.buffer = [] ∨ s.bufferOp = some i.change.op) : Flow src P n (s.joinBatch b i) := by
  obtain ⟨c, hc, copy, before⟩ := ready
  have pushed : Batched src P (s.push b i) := by
    refine ⟨fun t ht => ?_, fun h => (nomatch h), fun j hj => ?_⟩
    · obtain rfl : i.change.cursor = t := Option.some.inj ht
      rw [copy.2]
      exact keptUpTo_of_before ho hc (fun c' hc' hlt => (before c' hc' hlt).push) (kept_pushed copy)
    · rcases List.mem_append.mp hj with hj | hj
      · rcases op with none | same
        · rw [none] at hj
          cases hj
        · exact (same.symm.trans (hb.ops j hj) : some i.change.op = some j.change.op)
      · obtain rfl := List.mem_singleton.mp hj
        rfl
  have read : ReadTo src P n (s.push b i) fun _ => False := fun j hj c' hc' =>
    Or.inl ((read j hj c' hc').elim Kept.push kept_pushed)
  unfold Stream.joinBatch
  dsimp only
  split
  · exact flow_flushAndFinish pushed read
  · have same := sameBatch_scheduleFlush (s.push b i)
    exact flow_idle (pushed.congr same) (read.congr same)

/-! ### `flush` -/

theorem Ready.congr (same : SameBatch s s') {next : Then γ R Sig} (h : Ready src P s next) :
    Ready src P s' next := by
  cases next with
  | done => trivial
  | join i =>
    obtain ⟨c, hc, copy, before⟩ := h
    exact ⟨c, hc, copy, fun c' hc' hlt => (before c' hc' hlt).congr same⟩
  | emptied c => exact ⟨h.1, fun c' hc' hlt => (h.2 c' hc' hlt).congr same⟩
  | notice cursor => exact fun c' hc' hle => (h c' hc' hle).congr same
  | halt status => trivial

theorem flow_afterFlush (ho : InOrder src) (hb : Batched src P s) {next : Then γ R Sig}
    (ready : Ready src P s next) (read : ¬ next.stopping → ReadTo src P n s fun c => next.holds c)
    (empty : s.tailCursor = none) (live : s.halted = none) : Flow src P n (s.afterFlush b next) := by
  cases next with
  | done => exact flow_idle hb (read id)
  | join i => exact flow_joinBatch ho hb ready (read id) (Or.inl (hb.empty empty))
  | emptied c =>
    simp only [Stream.afterFlush, live, Option.isSome_none, Bool.false_eq_true, if_false]
    exact ⟨hb.congr (sameBatch_goto s _), ⟨ready.1, ready.2, hb.empty empty⟩, fun _ => read id⟩
  | notice cursor => exact ⟨hb.congr (sameBatch_goto s _), ⟨ready, empty⟩, fun h => read h⟩
  | halt status => exact ⟨hb.congr (sameBatch_goto s _), trivial, fun h => (h trivial).elim⟩

theorem flow_startFlush (ho : InOrder src) (hb : Batched src P s) {next : Then γ R Sig}
    (ready : Ready src P s next) (read : ¬ next.stopping → ReadTo src P n s fun c => next.holds c)
    (live : s.halted = none) : Flow src P n (s.startFlush b next) := by
  have same := sameBatch_clearTimer s
  unfold Stream.startFlush
  split
  · next h =>
    have empty : s.tailCursor = none := by simpa [live] using h
    exact flow_afterFlush ho (hb.congr same) (ready.congr same) (fun h => (read h).congr same) empty
      live
  · have going := same.trans (sameBatch_goto s.clearTimer (.flushing next))
    exact ⟨hb.congr going, ready.congr going, fun h => (read h).congr going⟩

theorem batched_takeBatch (hb : Batched src P s) (live : s.halted = none) :
    Batched src P s.takeBatch ∧ s.takeBatch.tailCursor = none := by
  unfold Stream.takeBatch
  split
  · next empty => exact ⟨hb, empty⟩
  · rw [live]
    exact ⟨⟨fun _ h => (nomatch h), fun _ => rfl, fun _ h => (nomatch h)⟩, rfl⟩

theorem flow_flush (ho : InOrder src) (h : Flow src P n s) {next : Then γ R Sig}
    (task : s.task = .flushing next) (free : s.inflight = none) (live : s.halted = none) :
    Flow src P n (s.takeBatch.afterFlush b next) := by
  have kept : ∀ c, Kept P s c → Kept P s.takeBatch c := fun c => Kept.takeBatch free live
  have stays : s.takeBatch.halted = none := by
    unfold Stream.takeBatch
    split
    · exact live
    · simp [live]
  obtain ⟨batched, empty⟩ := batched_takeBatch h.batched live
  have ready : Ready src P s next := h.taskOk task
  refine flow_afterFlush ho batched ?_ (fun hn i hi c hc => ?_) empty stays
  · cases next with
    | done => trivial
    | join i =>
      obtain ⟨c, hc, copy, before⟩ := ready
      exact ⟨c, hc, copy, fun c' hc' hlt => kept c' (before c' hc' hlt)⟩
    | emptied c => exact ⟨ready.1, fun c' hc' hlt => kept c' (ready.2 c' hc' hlt)⟩
    | notice cursor => exact fun c' hc' hle => kept c' (ready c' hc' hle)
    | halt status => trivial
  · exact (h.readAt task hn i hi c hc).imp_left (kept c)

/-! ### `accept` -/

/-- `cursorAfter` says no only of what the watermark has reached. -/
def SoundCursors (b : Bridge γ R Sig) : Prop :=
  ∀ cursor mark, b.cursorAfter cursor mark = false → ∃ m, mark = some m ∧ cursor ≤ m

theorem flow_takeItem (ho : InOrder src) (sound : SoundCursors b) (h : Flow src P n s)
    (idle : s.task = .idle) (live : s.halted = none) {item : StreamItem γ R}
    (hitem : src[n]? = some item)
    (mark : ∀ m, s.watermark = some m → ∀ c ∈ changes src, c.cursor ≤ m → P c) :
    Flow src P (n + 1) (s.takeItem b item) := by
  have readN : ReadTo src P n s fun _ => False := h.readAt idle id
  have before : KeptBefore src P s item.cursor := by
    intro c hc hlt
    obtain ⟨i, hi⟩ := List.mem_iff_getElem?.mp (mem_changes.mp hc)
    exact (readN i (ho.index_lt hi hitem hlt) c hi).elim id False.elim
  have idleTask : TaskOk src P s s.task := idle ▸ trivial
  -- nothing changes for an item that is not a change, or one the watermark has reached
  have next (extra : CdcChange γ R → Prop)
      (here : ∀ c, item = .change c → Kept P s c ∨ extra c) : ReadTo src P (n + 1) s extra := by
    intro i hi c hc
    rcases Nat.lt_succ_iff_lt_or_eq.mp hi with hlt | rfl
    · exact Or.inl ((readN i hlt c hc).elim id False.elim)
    · exact here c (Option.some.inj (hitem.symm.trans hc))
  have upTo (notChange : ∀ c, item ≠ .change c) : KeptUpTo src P s item.cursor := by
    intro c hc hle
    rcases lt_or_eq_of_le hle with hlt | heq
    · exact before c hc hlt
    · have hmem := List.mem_of_getElem? hitem
      exact absurd (ho.cursor_inj hmem (mem_changes.mp hc) heq.symm) (notChange c)
  cases item with
  | skip cursor =>
    have read := next (fun _ => False) fun c hc => nomatch hc
    exact flow_notePosition h.batched (upTo fun c hc => nomatch hc) read idle
  | notice cursor =>
    have read (extra) := next extra fun c hc => nomatch hc
    simp only [Stream.takeItem, live, Option.isSome_none, Bool.false_eq_true, if_false]
    split
    · exact ⟨h.batched, idleTask, fun _ => read _⟩
    · exact flow_startFlush ho h.batched (upTo fun c hc => nomatch hc) (fun _ => read _) live
  | change c₀ =>
    have mem : c₀ ∈ changes src := mem_changes.mpr (List.mem_of_getElem? hitem)
    simp only [Stream.takeItem, live, Option.isSome_none, Bool.false_eq_true, if_false]
    split
    · next reached =>
      obtain ⟨m, hm, hle⟩ := sound c₀.cursor s.watermark (by simpa using reached)
      refine ⟨h.batched, idleTask, fun _ => next _ fun c hc => ?_⟩
      obtain rfl := StreamItem.change.inj hc
      exact Or.inl (Or.inl (mark m hm c₀ mem hle))
    · have read := next (fun c => c₀ = c) fun c hc => Or.inr (StreamItem.change.inj hc)
      split
      · exact flow_startFlush ho h.batched ⟨mem, before⟩ (fun _ => read) live
      · exact ⟨h.batched.congr (sameBatch_goto s _), ⟨mem, before⟩, fun _ => read⟩

theorem At.congr (same : SameBatch s s') {c₀ : CdcChange γ R} (h : At src P n s c₀) :
    At src P n s' c₀ :=
  ⟨h.batched.congr same, h.mem, fun c hc hlt => (h.before c hc hlt).congr same, h.read.congr same⟩

/-- The change is filtered out or dropped, and its position noted. -/
theorem flow_passed (ho : InOrder src) {c₀ : CdcChange γ R} (h : At src P n s c₀) (hp : P c₀) :
    Flow src P n ((s.goto .idle).notePosition b c₀.cursor) := by
  have same := sameBatch_goto s .idle
  have upTo := (keptUpTo_of_before ho h.mem h.before (Or.inl hp))
  refine flow_notePosition (h.batched.congr same) upTo (fun i hi c hc => ?_) rfl
  rcases h.read i hi c hc with hk | rfl
  · exact Or.inl hk
  · exact Or.inl (Or.inl hp)

theorem flow_acceptTruncate (ho : InOrder src) (h : Flow src P n s) {c : CdcChange γ R}
    {echo : Echo R} (task : s.task = .recognising c) (live : s.halted = none)
    (hp : (s.acceptTruncate b c echo).2 = true → P c) :
    Flow src P n (s.acceptTruncate b c echo).1 := by
  obtain ⟨mem, before, empty⟩ := h.taskOk task
  have at_c : At src P n s c := ⟨h.batched, mem, before, fun i hi c' hc' =>
    (h.readAt task id i hi c' hc').imp_right Eq.symm⟩
  have alone (row : R) : Flow src P n (s.pushTruncate c row).flushAndFinish := by
    have kept {c'} (hk : Kept P s c') : Kept P (s.pushTruncate c row) c' := by
      rcases hk with hk | hk | ⟨j, hj, copy⟩
      · exact Or.inl hk
      · exact Or.inr (Or.inl hk)
      · exact Or.inr (Or.inr ⟨j, List.mem_append_left _ hj, copy⟩)
    have here : Kept P (s.pushTruncate c row) c :=
      Or.inr (Or.inr ⟨_, List.mem_append_right _ (List.mem_singleton_self _), rfl, rfl⟩)
    have pushed : Batched src P (s.pushTruncate c row) := by
      refine ⟨fun t ht => ?_, fun h => (nomatch h), fun j hj => ?_⟩
      · obtain rfl : c.cursor = t := Option.some.inj ht
        exact keptUpTo_of_before ho mem (fun c' hc' hlt => kept (before c' hc' hlt)) here
      · have only : j = ⟨c, row, none⟩ := by simpa [Stream.pushTruncate, empty] using hj
        rw [only]
        rfl
    refine flow_flushAndFinish pushed fun i hi c' hc' => Or.inl ?_
    rcases at_c.read i hi c' hc' with hk | rfl
    · exact kept hk
    · exact here
  revert hp
  unfold Stream.acceptTruncate
  simp only [live, Option.isSome_none, Bool.false_eq_true, if_false]
  cases echo with
  | none => exact fun _ => alone _
  | drop => exact fun hp => flow_passed ho at_c (hp rfl)
  | forward row => exact fun _ => alone row

/-- `c` is `c₀` as `accept` carries it on: its row may have been completed or marked. -/
def Carries (c₀ c : CdcChange γ R) : Prop := c.op = c₀.op ∧ c.cursor = c₀.cursor

variable [DecidableEq Sig]

theorem flow_acceptRow (ho : InOrder src) {c₀ c : CdcChange γ R} (h : At src P n s c₀)
    (carries : Carries c₀ c) (live : s.halted = none) : Flow src P n (s.acceptRow b c) := by
  generalize hi : (⟨c, c.row, b.keySignature c.row⟩ : Buffered γ R Sig) = i
  have copy : Copy c₀ i := by rw [← hi]; exact carries
  have ready : Ready src P s (.join i) := ⟨c₀, h.mem, copy, h.before⟩
  have read : ReadTo src P n s fun c => Copy c i := fun j hj c hc =>
    (h.read j hj c hc).imp_right fun (heq : c = c₀) => heq ▸ copy
  unfold Stream.acceptRow
  simp only [hi]
  split
  · exact flow_startFlush ho h.batched ready (fun _ => read) live
  · next free =>
    refine flow_joinBatch ho h.batched ready read ?_
    simp only [Stream.conflicts, Bool.and_eq_true, Bool.or_eq_true, not_and, not_or] at free
    by_cases empty : s.buffer = []
    · exact Or.inl empty
    · have differs := (free (by simpa using empty)).1
      exact Or.inr (by simpa using differs)

theorem flow_acceptMatching (ho : InOrder src) {c₀ c : CdcChange γ R} (echo : Echo R)
    (h : At src P n s c₀) (carries : Carries c₀ c) (live : s.halted = none)
    (hp : (s.acceptMatching b c echo).2 = true → P c₀) :
    Flow src P n (s.acceptMatching b c echo).1 := by
  have passed := flow_passed (b := b) ho h
  rw [← carries.2] at passed
  revert hp
  unfold Stream.acceptMatching
  split
  · exact fun hp => passed (hp rfl)
  · cases echo with
    | none => exact fun _ => flow_acceptRow ho h carries live
    | drop =>
      simp only [live, Option.isSome_none, Bool.false_eq_true, if_false]
      exact fun hp => passed (hp trivial)
    | forward row =>
      simp only [live, Option.isSome_none, Bool.false_eq_true, if_false]
      exact fun _ => flow_acceptRow ho h carries live

/-- What the code does not allow for: the schema is looked at, and the look throws. -/
def ThrowsAt (b : Bridge γ R Sig) (s : Stream γ R Sig) (c : CdcChange γ R) (a : Examined R) : Prop :=
  ∃ c', Stream.completeRow b c a.completion = some c' ∧ s.looksAtSchema b c' = true ∧
    a.drift = .throws

theorem flow_acceptChecked (ho : InOrder src) {c₀ c : CdcChange γ R} {drift : Drift} {echo : Echo R}
    (h : At src P n s c₀) (carries : Carries c₀ c) (live : s.halted = none)
    (answers : s.looksAtSchema b c = true → drift ≠ .throws)
    (hp : (s.acceptChecked b c drift echo).2 = true → P c₀) :
    Flow src P n (s.acceptChecked b c drift echo).1 := by
  have seen : (s.see b c).halted = none := by
    unfold Stream.see
    split
    · exact live
    · exact live
  have matching := flow_acceptMatching (b := b) ho echo (h.congr (sameBatch_see s c))
    carries seen
  revert hp
  unfold Stream.acceptChecked
  split
  · next looks =>
    cases drift with
    | throws => exact absurd rfl (answers looks)
    | stop =>
      simp only [live, Option.isSome_none, Bool.false_eq_true, if_false]
      exact fun _ => flow_startFlush ho h.batched trivial (fun h => (h trivial).elim) live
    | clear =>
      simp only [live, Option.isSome_none, Bool.false_eq_true, if_false]
      exact matching
  · exact matching

theorem flow_examine (ho : InOrder src) (h : Flow src P n s) {c : CdcChange γ R} {a : Examined R}
    (task : s.task = .examining c) (live : s.halted = none) (answers : ¬ ThrowsAt b s c a)
    (hp : (s.examine b c a).2 = true → P c) (goes : (s.examine b c a).1.halted = none) :
    Flow src P n (s.examine b c a).1 := by
  obtain ⟨mem, before⟩ := h.taskOk task
  have at_c : At src P n s c := ⟨h.batched, mem, before, fun i hi c' hc' =>
    (h.readAt task id i hi c' hc').imp_right Eq.symm⟩
  unfold ThrowsAt at answers
  revert hp goes
  unfold Stream.examine
  cases completed : Stream.completeRow b c a.completion with
  | none => exact fun _ goes => absurd goes (s.halt_halted .failed)
  | some c' =>
    have carries : Carries c c' := by
      revert completed
      unfold Stream.completeRow
      split
      · split
        · rintro ⟨⟩
          exact ⟨rfl, rfl⟩
        · exact fun h => nomatch h
      · rintro ⟨⟩
        exact ⟨rfl, rfl⟩
    have quiet : s.looksAtSchema b c' = true → a.drift ≠ .throws := fun looks throws =>
      answers ⟨c', completed, looks, throws⟩
    exact fun hp _ => flow_acceptChecked ho at_c carries live quiet hp

end ChainSteps

/-!
## The delivery, and the whole pipeline

What a delivery in flight has to end in, by the stage it has come to, and the invariant of the whole.
-/

section Pipeline

variable [LinearOrder γ]
variable {src : List (StreamItem γ R)} {b : Bridge γ R Sig}

/-- What the attempt established about the batch. -/
def OutcomeOk (w : World γ R Sig) (d : Delivery γ R Sig) (outcome : Outcome) : Prop :=
  (outcome = .nothing → d.items = []) ∧
    (outcome = .success → ∀ c, Among c d.items → Applied w c)

def StageOk (w : World γ R Sig) (d : Delivery γ R Sig) : Stage → Prop
  | .attempting => True
  | .settling outcome _ => OutcomeOk w d outcome
  | .checkpointing outcome nextSeq _ =>
    OutcomeOk w d outcome ∧ d.seq ≤ nextSeq ∧ ∀ c, Among c d.items → Covered w nextSeq c

/-- The invariant of a delivery in flight, in a stream at sequence `n`. -/
structure Underway (src : List (StreamItem γ R)) (w : World γ R Sig) (n : Nat)
    (d : Delivery γ R Sig) : Prop where
  seq : d.seq = n
  ops : ∀ i ∈ d.items, d.op = some i.change.op
  reach : ∀ c ∈ changes src, c.cursor ≤ d.reach → Covered w n c ∨ Among c d.items
  stage : StageOk w d d.stage

structure Live (src : List (StreamItem γ R)) (w : World γ R Sig) (s : Stream γ R Sig) : Prop where
  seq : s.seq = w.cursorOffset
  watermark : s.watermark = w.cursorJson
  delivery : ∀ d, s.inflight = some d → Underway src w s.seq d
  flow : s.halted = none → Flow src (Covered w s.seq) w.next s

/-- **The pipeline's invariant.** -/
structure Safe (src : List (StreamItem γ R)) (w : World γ R Sig) : Prop where
  persisted : ∀ p, w.cursorJson = some p →
    ∀ c ∈ changes src, c.cursor ≤ p → Covered w w.cursorOffset c
  live : ∀ s, w.stream = some s → Live src w s

/-! ### Carrying the invariants over a step that leaves the chain alone -/

omit [LinearOrder γ] in
theorem OutcomeOk.mono {w w' : World γ R Sig} {d : Delivery γ R Sig} {outcome : Outcome}
    {n : Nat} (keeps : Keeps n w w') (h : OutcomeOk w d outcome) : OutcomeOk w' d outcome :=
  ⟨h.1, fun hs c hc => keeps.applied (h.2 hs c hc)⟩

/-- The delivery moves on to another stage. -/
theorem Underway.advance {w w' : World γ R Sig} {n : Nat} {d : Delivery γ R Sig} {stage : Stage}
    (keeps : Keeps n w w') (h : Underway src w n d) (ok : StageOk w' d stage) :
    Underway src w' n (d.at stage) := by
  refine ⟨h.seq, h.ops, fun c hc hle => ?_, ?_⟩
  · exact (h.reach c hc hle).imp_left fun hk => keeps.covered (Nat.le_refl n) hk
  · cases stage with
    | attempting => trivial
    | settling outcome tries => exact ok
    | checkpointing outcome nextSeq tries => exact ok

theorem Underway.keep {w w' : World γ R Sig} {d : Delivery γ R Sig} {n : Nat}
    (h : Underway src w n d) (keeps : ∀ m, Keeps m w w') : Underway src w' n d := by
  refine ⟨h.seq, h.ops, fun c hc hle => ?_, ?_⟩
  · exact (h.reach c hc hle).imp_left fun hk => (keeps n).covered (Nat.le_refl n) hk
  · have ok := h.stage
    revert ok
    cases d.stage with
    | attempting => exact id
    | settling outcome tries => exact fun ok => ok.mono (keeps n)
    | checkpointing outcome nextSeq tries =>
      exact fun ok => ⟨ok.1.mono (keeps n), ok.2.1, fun c hc =>
        (keeps nextSeq).covered (Nat.le_refl _) (ok.2.2 c hc)⟩

section Carry

variable {P P' : CdcChange γ R → Prop} {s s' : Stream γ R Sig} {n n' : Nat}

theorem TaskOk.carry {task : Task γ R Sig} (h : TaskOk src P s task)
    (kept : ∀ c, Kept P s c → Kept P' s' c) (chain : s.SameChain s')
    (free : s.inflight = none → s'.inflight = none) : TaskOk src P' s' task := by
  have before {cursor} (hb : KeptBefore src P s cursor) : KeptBefore src P' s' cursor :=
    fun c hc hlt => kept c (hb c hc hlt)
  have upTo {cursor} (hu : KeptUpTo src P s cursor) : KeptUpTo src P' s' cursor :=
    fun c hc hle => kept c (hu c hc hle)
  cases task with
  | idle => trivial
  | examining c => exact ⟨h.1, before h.2⟩
  | recognising c => exact ⟨h.1, before h.2.1, chain.buffer.trans h.2.2⟩
  | flushing next =>
    cases next with
    | done => trivial
    | join i =>
      obtain ⟨c, hc, copy, hb⟩ := h
      exact ⟨c, hc, copy, before hb⟩
    | emptied c => exact ⟨h.1, before h.2⟩
    | notice cursor => exact upTo h
    | halt status => trivial
  | draining next =>
    cases next with
    | notice cursor => exact ⟨upTo h.1, chain.tailCursor.trans h.2⟩
    | _ => trivial
  | noticing cursor tries => exact ⟨upTo h.1, chain.tailCursor.trans h.2.1, free h.2.2⟩

/-- A step of the delivery, or of the world around it: what was kept is kept. -/
theorem Flow.carry (h : Flow src P n s) (hn : n' ≤ n) (kept : ∀ c, Kept P s c → Kept P' s' c)
    (chain : s.SameChain s') (free : s.inflight = none → s'.inflight = none) :
    Flow src P' n' s' := by
  refine ⟨⟨fun t ht c hc hle => ?_, fun ht => ?_, fun i hi => ?_⟩, ?_, fun hs i hi c hc => ?_⟩
  · exact kept c (h.batched.tail t (chain.tailCursor ▸ ht) c hc hle)
  · exact chain.buffer.trans (h.batched.empty (chain.tailCursor ▸ ht))
  · rw [chain.bufferOp]
    exact h.batched.ops i (chain.buffer ▸ hi)
  · rw [chain.task]
    exact h.task.carry kept chain free
  · rw [chain.task] at hs ⊢
    exact (h.read hs i (by omega) c hc).imp_left (kept c)

end Carry

/-- A step after which the cursor is where it was. -/
theorem Safe.of_stream {w w' : World γ R Sig} {s s' : Stream γ R Sig} (h : Safe src w)
    (hs : w.stream = some s) (hs' : w'.stream = some s') (keeps : Keeps s.seq w w')
    (seq : s'.seq = s.seq) (watermark : s'.watermark = s.watermark)
    (delivery : ∀ d, s'.inflight = some d → Underway src w' s.seq d)
    (flow : s'.halted = none → Flow src (Covered w' s.seq) w'.next s') : Safe src w' := by
  have live := h.live s hs
  refine ⟨fun p hp c hc hle => ?_, fun t ht => ?_⟩
  · rw [keeps.cursorOffset]
    exact keeps.covered (Nat.le_of_eq live.seq.symm)
      (h.persisted p (keeps.cursorJson ▸ hp) c hc hle)
  · obtain rfl : s' = t := Option.some.inj (hs'.symm.trans ht)
    refine ⟨?_, ?_, fun d hd => ?_, fun hh => ?_⟩
    · rw [seq, keeps.cursorOffset, live.seq]
    · rw [watermark, keeps.cursorJson, live.watermark]
    · exact seq ▸ delivery d hd
    · exact seq ▸ flow hh

/-- A step of the chain: it leaves the delivery alone, and nothing is taken back. -/
theorem Safe.of_chain {w w' : World γ R Sig} {s s' : Stream γ R Sig} (h : Safe src w)
    (hs : w.stream = some s) (hs' : w'.stream = some s') (keeps : ∀ m, Keeps m w w')
    (same : s.SameDelivery s')
    (flow : s.halted = none → s'.halted = none →
      Flow src (Covered w s.seq) w.next s → Flow src (Covered w' s.seq) w'.next s') :
    Safe src w' := by
  have live := h.live s hs
  refine h.of_stream hs hs' (keeps _) same.seq same.watermark (fun d hd => ?_) fun hh => ?_
  · exact (live.delivery d (same.inflight ▸ hd)).keep keeps
  · exact flow (same.halted hh) hh (live.flow (same.halted hh))

/-- The batch that is taken is a delivery that meets the invariant. -/
theorem underway_takeBatch {w : World γ R Sig} {s : Stream γ R Sig} {d : Delivery γ R Sig}
    (flow : s.halted = none → Batched src (Covered w s.seq) s) (free : s.inflight = none)
    (hd : s.takeBatch.inflight = some d) : Underway src w s.seq d := by
  unfold Stream.takeBatch at hd
  split at hd
  · rw [free] at hd
    cases hd
  · next reach hreach =>
    split at hd
    · rw [free] at hd
      cases hd
    · next live =>
      have batched := flow (by simpa using live)
      obtain rfl := Option.some.inj hd
      refine ⟨rfl, batched.ops, fun c hc hle => ?_, ?_⟩
      · rcases batched.tail reach hreach c hc hle with hk | ⟨d, hd, _⟩ | hk
        · exact Or.inl hk
        · rw [free] at hd
          cases hd
        · exact Or.inr hk
      · dsimp only
        split
        · next empty => exact ⟨fun _ => List.isEmpty_iff.mp empty, fun h => nomatch h⟩
        · trivial

/-- The cursor moves, to where everything is covered. -/
theorem Safe.persist {w : World γ R Sig} {s : Stream γ R Sig} {nextSeq : Nat} {cursor : γ}
    {acked : Bool} (free : s.inflight = none)
    (upTo : ∀ c ∈ changes src, c.cursor ≤ cursor → Covered w nextSeq c)
    (flow : s.halted = none → Flow src (Covered w nextSeq) w.next s) :
    Safe src (w.persist s nextSeq cursor acked) := by
  refine ⟨fun p hp c hc hcp => ?_, fun t ht => ?_⟩
  · obtain rfl : cursor = p := Option.some.inj hp
    exact upTo c hc hcp
  · obtain rfl := Option.some.inj ht
    refine ⟨rfl, rfl, fun d hd => ?_, fun hh => ?_⟩
    · rw [show ({ s with seq := nextSeq, watermark := some cursor } : Stream γ R Sig).inflight =
        s.inflight from rfl, free] at hd
      cases hd
    · exact (flow hh).carry (Nat.le_refl _) (fun _ hk => hk) ⟨rfl, rfl, rfl, rfl⟩ id

theorem Underway.outcomeOk {w : World γ R Sig} {n : Nat} {d : Delivery γ R Sig}
    {outcome : Outcome} {tries : Nat} (h : Underway src w n d)
    (stage : d.stage = .settling outcome tries) : OutcomeOk w d outcome := by
  have ok := h.stage
  rw [stage] at ok
  exact ok

/-- The delivery moves on to another stage. -/
theorem Safe.advance {w w' : World γ R Sig} {s s' : Stream γ R Sig} {d : Delivery γ R Sig}
    {stage : Stage} (h : Safe src w) (hs : w.stream = some s) (hd : s.inflight = some d)
    (keeps : Keeps s.seq w w') (sameNext : w'.next = w.next) (delivery : s.SameDelivery s')
    (chain : s.SameChain s') (ok : StageOk w' d stage) :
    Safe src (w'.withStream (s'.deliver (some (d.at stage)))) := by
  have live := h.live s hs
  have keeps : Keeps s.seq w (w'.withStream (s'.deliver (some (d.at stage)))) :=
    keeps.trans (keeps_withStream s.seq)
  refine h.of_stream hs rfl keeps delivery.seq delivery.watermark (fun d' hd' => ?_) fun hh => ?_
  · obtain rfl := Option.some.inj hd'
    refine (live.delivery d hd).advance keeps ?_
    cases stage with
    | attempting => trivial
    | settling outcome tries => exact ok
    | checkpointing outcome nextSeq tries => exact ok
  · rw [show (w'.withStream (s'.deliver (some (d.at stage)))).next = w.next from sameNext]
    refine (live.flow (delivery.halted hh)).carry (Nat.le_refl _) (fun c hk => ?_)
      ⟨chain.buffer, chain.bufferOp, chain.tailCursor, chain.task⟩ fun free => ?_
    · rcases hk with hp | ⟨d', hd', among⟩ | ⟨i, hi, copy⟩
      · exact Or.inl (keeps.covered (Nat.le_refl _) hp)
      · obtain rfl := Option.some.inj (hd.symm.trans hd')
        exact Or.inr (Or.inl ⟨_, rfl, among⟩)
      · exact Or.inr (Or.inr ⟨i, chain.buffer.symm ▸ hi, copy⟩)
    · rw [hd] at free
      cases free

/-- `settle` has failed once more: the same delivery again, or a stop. -/
theorem Safe.threwAgain {w w' : World γ R Sig} {s s' : Stream γ R Sig} {d : Delivery γ R Sig}
    {outcome : Outcome} {tries : Nat} (h : Safe src w) (hs : w.stream = some s)
    (hd : s.inflight = some d) (keeps : Keeps s.seq w w') (sameNext : w'.next = w.next)
    (delivery : s.SameDelivery s') (chain : s.SameChain s') (ok : OutcomeOk w' d outcome) :
    Safe src (w'.withStream (settleThrew s' d outcome tries)) := by
  unfold settleThrew
  split
  · exact h.advance hs hd keeps sameNext delivery chain ok
  · have same := delivery.trans (s'.sameDelivery_halt .failed)
    exact h.of_stream hs rfl (keeps.trans (keeps_withStream s.seq)) same.seq same.watermark
      (fun _ h => nomatch h) fun hh => absurd hh (s'.halt_halted .failed)

/-- The bridge before its first run has nothing to answer for. -/
theorem safe_fresh : Safe src (World.fresh : World γ R Sig) := by
  refine ⟨fun _ h => (nomatch h), fun s hs => ?_⟩
  obtain rfl := Option.some.inj hs
  exact ⟨rfl, rfl, fun _ h => (nomatch h), fun _ => ⟨⟨fun _ h => (nomatch h), fun _ => rfl,
    fun _ h => (nomatch h)⟩, trivial, fun _ i hi => absurd hi (Nat.not_lt_zero i)⟩⟩

/-! ### The step -/

variable [DecidableEq Sig]

/-- The step condition: no look at the schema throws. -/
def Answers (b : Bridge γ R Sig) (w : World γ R Sig) (e : Event R) : Prop :=
  ∀ s c a, w.stream = some s → s.task = .examining c → e = .examined a → ¬ ThrowsAt b s c a

/-! #### The chain's events, over whatever is meant by dealt with -/

section ChainMoves

variable {P : CdcChange γ R → Prop} {w w' : World γ R Sig} {s s' : Stream γ R Sig} {e : Event R}

omit [LinearOrder γ] in
theorem ChainMoves.keeps (move : ChainMoves b src w e w') (m : ℕ) : Keeps m w w' := by
  cases move with
  | take | reconnect | crash => exact ⟨rfl, rfl, fun _ h => h, fun _ h => h, fun _ h _ => h⟩
  | examined | recognised => exact (keeps_pass m).trans (keeps_withStream m)
  | timer | timedFlush | flush | noticeDrained | haltDrained | fatal => exact keeps_withStream m

/-- What an event of the chain may do to the delivery: leave it alone, or start one. -/
structure ChainFrame (s s' : Stream γ R Sig) : Prop where
  seq : s'.seq = s.seq
  watermark : s'.watermark = s.watermark
  halted : s'.halted = none → s.halted = none
  inflight :
    s'.inflight = s.inflight ∧ (s'.task = s.task ∨ ∀ cursor tries, s.task ≠ .noticing cursor tries) ∨
      s.inflight = none ∧ (∃ next, s.task = .flushing next) ∧ s'.inflight = s.takeBatch.inflight

omit [LinearOrder γ] [DecidableEq Sig] in
theorem ChainFrame.of_same (same : s.SameDelivery s')
    (task : s'.task = s.task ∨ ∀ cursor tries, s.task ≠ .noticing cursor tries) : ChainFrame s s' :=
  ⟨same.seq, same.watermark, same.halted, Or.inl ⟨same.inflight, task⟩⟩

omit [LinearOrder γ] in
theorem ChainMoves.frame (move : ChainMoves b src w e w') (hs : w.stream = some s)
    (hs' : w'.stream = some s') : ChainFrame s s' := by
  have other {task : Task γ R Sig} (at_task : s.task = task)
      (h : ∀ cursor tries, task ≠ .noticing cursor tries) :
      ∀ cursor tries, s.task ≠ .noticing cursor tries := at_task ▸ h
  cases move with
  | @take s item hs₀ idle hitem =>
    obtain rfl := Option.some.inj (hs.symm.trans hs₀)
    obtain rfl := Option.some.inj hs'
    exact .of_same (s.sameDelivery_takeItem item) (Or.inr (other idle fun _ _ h => nomatch h))
  | @examined s c a hs₀ task =>
    obtain rfl := Option.some.inj (hs.symm.trans hs₀)
    obtain rfl := Option.some.inj hs'
    exact .of_same (s.sameDelivery_examine c a) (Or.inr (other task fun _ _ h => nomatch h))
  | @recognised s c a hs₀ task =>
    obtain rfl := Option.some.inj (hs.symm.trans hs₀)
    obtain rfl := Option.some.inj hs'
    exact .of_same (s.sameDelivery_acceptTruncate c a) (Or.inr (other task fun _ _ h => nomatch h))
  | @timer s t hs₀ armed =>
    obtain rfl := Option.some.inj (hs.symm.trans hs₀)
    obtain rfl := Option.some.inj hs'
    exact .of_same ⟨rfl, rfl, rfl, id⟩ (Or.inl rfl)
  | @timedFlush s k hs₀ idle fired =>
    obtain rfl := Option.some.inj (hs.symm.trans hs₀)
    obtain rfl := Option.some.inj hs'
    have same : s.SameDelivery { s with timedFlushes := k } := ⟨rfl, rfl, rfl, id⟩
    exact .of_same (same.trans (Stream.sameDelivery_flushAndFinish _))
      (Or.inr (other idle fun _ _ h => nomatch h))
  | @flush s next hs₀ task free =>
    obtain rfl := Option.some.inj (hs.symm.trans hs₀)
    obtain rfl := Option.some.inj hs'
    obtain ⟨seq, watermark, halted⟩ := s.takeBatch_frame
    have after := s.takeBatch.sameDelivery_afterFlush (b := b) next
    exact ⟨after.seq.trans seq, after.watermark.trans watermark, fun h => halted ▸ after.halted h,
      Or.inr ⟨free, ⟨next, task⟩, after.inflight⟩⟩
  | @noticeDrained s cursor hs₀ task free =>
    obtain rfl := Option.some.inj (hs.symm.trans hs₀)
    obtain rfl := Option.some.inj hs'
    exact .of_same (s.sameDelivery_goto _) (Or.inr (other task fun _ _ h => nomatch h))
  | @haltDrained s status hs₀ task free =>
    obtain rfl := Option.some.inj (hs.symm.trans hs₀)
    obtain rfl := Option.some.inj hs'
    exact .of_same ((s.sameDelivery_halt status).trans (Stream.sameDelivery_goto _ _))
      (Or.inr (other task fun _ _ h => nomatch h))
  | @fatal s hs₀ idle =>
    obtain rfl := Option.some.inj (hs.symm.trans hs₀)
    obtain rfl := Option.some.inj hs'
    refine .of_same ?_ (Or.inr (other idle fun _ _ h => nomatch h))
    split
    · exact .refl s
    · exact s.sameDelivery_startFlush _
  | @reconnect s n hs₀ hn =>
    obtain rfl := Option.some.inj (hs.symm.trans hs')
    exact .of_same (.refl _) (Or.inl rfl)
  | crash => cases hs'

/-- **The chain's invariant, over one event of the chain.** -/
theorem ChainMoves.flow (ho : InOrder src) (sound : SoundCursors b)
    (move : ChainMoves b src w e w') (answers : Answers b w e) (hs : w.stream = some s)
    (hs' : w'.stream = some s') (goes : s'.halted = none)
    (mark : ∀ m, s.watermark = some m → ∀ c ∈ changes src, c.cursor ≤ m → P c)
    (passed : ∀ c : CdcChange γ R, c.cursor ∈ w'.passed → P c) (flow : Flow src P w.next s) :
    Flow src P w'.next s' := by
  have hh : s.halted = none := (move.frame hs hs').halted goes
  have pass_next (cursor : γ) (yes : Bool) : (w.pass cursor yes).next = w.next := by
    unfold World.pass
    split
    · rfl
    · rfl
  have noted {cursor : γ} {yes : Bool} (h : yes = true) : cursor ∈ (w.pass cursor yes).passed := by
    subst h
    exact List.mem_append_right _ (List.mem_singleton_self _)
  cases move with
  | @take s item hs₀ idle hitem =>
    obtain rfl := Option.some.inj (hs.symm.trans hs₀)
    obtain rfl := Option.some.inj hs'
    exact flow_takeItem ho sound flow idle hh hitem mark
  | @examined s c a hs₀ task =>
    obtain rfl := Option.some.inj (hs.symm.trans hs₀)
    obtain rfl := Option.some.inj hs'
    have examined := flow_examine ho flow task hh (answers s c a hs task rfl)
      (fun hp => passed c (noted hp)) goes
    exact (pass_next c.cursor (s.examine b c a).2).symm ▸ examined
  | @recognised s c a hs₀ task =>
    obtain rfl := Option.some.inj (hs.symm.trans hs₀)
    obtain rfl := Option.some.inj hs'
    have recognised := flow_acceptTruncate ho flow task hh fun hp => passed c (noted hp)
    exact (pass_next c.cursor (s.acceptTruncate b c a).2).symm ▸ recognised
  | @timer s t hs₀ armed =>
    obtain rfl := Option.some.inj (hs.symm.trans hs₀)
    obtain rfl := Option.some.inj hs'
    exact flow.carry (Nat.le_refl _) (fun _ hk => hk) ⟨rfl, rfl, rfl, rfl⟩ id
  | @timedFlush s k hs₀ idle fired =>
    obtain rfl := Option.some.inj (hs.symm.trans hs₀)
    obtain rfl := Option.some.inj hs'
    have fired : SameBatch s { s with timedFlushes := k } := ⟨rfl, rfl, rfl, rfl⟩
    exact flow_flushAndFinish (flow.batched.congr fired) (flow.readAt idle id)
  | @flush s next hs₀ task free =>
    obtain rfl := Option.some.inj (hs.symm.trans hs₀)
    obtain rfl := Option.some.inj hs'
    exact flow_flush ho flow task free hh
  | @noticeDrained s cursor hs₀ task free =>
    obtain rfl := Option.some.inj (hs.symm.trans hs₀)
    obtain rfl := Option.some.inj hs'
    obtain ⟨upTo, empty⟩ := flow.taskOk task
    have read := flow.readAt task id
    simp only [hh, Option.isSome_none, Bool.false_eq_true, if_false]
    exact ⟨flow.batched.congr (sameBatch_goto s _), ⟨upTo, empty, free⟩, fun _ => read⟩
  | @haltDrained s status hs₀ task free =>
    obtain rfl := Option.some.inj hs'
    exact absurd goes (Stream.halt_halted _ status)
  | @fatal s hs₀ idle =>
    obtain rfl := Option.some.inj (hs.symm.trans hs₀)
    obtain rfl := Option.some.inj hs'
    simp only [hh, Option.isSome_none, Bool.false_eq_true, if_false]
    exact flow_startFlush ho flow.batched trivial (fun h => (h trivial).elim) hh
  | @reconnect s n hs₀ hn =>
    obtain rfl := Option.some.inj (hs.symm.trans hs')
    exact flow.carry hn (fun _ hk => hk) (.refl _) id
  | crash => cases hs'

end ChainMoves

/-- An event of the chain keeps the invariant. -/
theorem Safe.chain (ho : InOrder src) (sound : SoundCursors b) {w w' : World γ R Sig} {e : Event R}
    {s : Stream γ R Sig} (h : Safe src w) (hs : w.stream = some s) (answers : Answers b w e)
    (move : ChainMoves b src w e w') : Safe src w' := by
  have live := h.live s hs
  have keeps := move.keeps
  cases hs' : w'.stream with
  | none =>
    refine ⟨fun p hp c hc hle => ?_, fun s hs => ?_⟩
    · rw [(keeps 0).cursorOffset]
      have covered := h.persisted p ((keeps 0).cursorJson ▸ hp) c hc hle
      exact (keeps _).covered (Nat.le_refl _) covered
    · rw [hs'] at hs
      cases hs
  | some s' =>
    have frame := move.frame hs hs'
    refine h.of_stream hs hs' (keeps _) frame.seq frame.watermark (fun d hd => ?_) fun goes => ?_
    · rcases frame.inflight with ⟨same, -⟩ | ⟨free, -, taken⟩
      · exact (live.delivery d (same ▸ hd)).keep keeps
      · have batched := fun hh => (live.flow hh).batched
        exact (underway_takeBatch batched free (taken ▸ hd)).keep keeps
    · have flow : Flow _ (Covered w' s.seq) _ s := (live.flow (frame.halted goes)).carry (Nat.le_refl _)
        (fun c hk => hk.imp_left ((keeps s.seq).covered (Nat.le_refl _))) (.refl s) id
      refine move.flow ho sound answers hs hs' goes (fun m hm c hc hle => ?_)
        (fun c hc => Or.inl hc) flow
      have reached := h.persisted m (live.watermark ▸ hm) c hc hle
      rw [← live.seq] at reached
      exact (keeps s.seq).covered (Nat.le_refl _) reached

/-- **The step lemma.** -/
theorem Safe.step (ho : InOrder src) (sound : SoundCursors b) {w w' : World γ R Sig} {e : Event R}
    (answers : Answers b w e) (h : Safe src w) (move : World.step b src w e = some w') :
    Safe src w' := by
  cases Moves.of_step move with
  | @take s item hs idle hitem => exact h.chain ho sound hs answers (.take hs idle hitem)
  | @examined s c a hs task => exact h.chain ho sound hs answers (.examined hs task)
  | @recognised s c a hs task => exact h.chain ho sound hs answers (.recognised hs task)
  | @timer s t hs armed => exact h.chain ho sound hs answers (.timer hs armed)
  | @timedFlush s k hs idle fired => exact h.chain ho sound hs answers (.timedFlush hs idle fired)
  | @flush s next hs task free => exact h.chain ho sound hs answers (.flush hs task free)
  | @noticeDrained s cursor hs task free =>
    exact h.chain ho sound hs answers (.noticeDrained hs task free)
  | @haltDrained s status hs task free =>
    exact h.chain ho sound hs answers (.haltDrained hs task free)
  | @noticeHalted s cursor tries recorded written acked hs task halted =>
    refine h.of_chain hs rfl keeps_withStream (s.sameDelivery_goto _) fun hh _ _ => ?_
    rw [hh] at halted
    cases halted
  | @noticed s cursor tries acked hs task live =>
    have inv := h.live s hs
    have flow := inv.flow live
    obtain ⟨upTo, empty, free⟩ := flow.taskOk task
    have idle := flow_idle flow.batched (flow.readAt task id)
    refine Safe.persist free (fun c hc hle => ?_) fun _ => ?_
    · rcases upTo c hc hle with hk | ⟨d, hd, _⟩ | ⟨i, hi, _⟩
      · exact hk.mono (Nat.le_succ _)
      · rw [free] at hd
        cases hd
      · rw [flow.batched.empty empty] at hi
        cases hi
    · exact idle.carry (Nat.le_refl _) (fun c hk => hk.imp_left fun hc => hc.mono (Nat.le_succ _))
        (.refl _) id
  | @noticeThrew s cursor tries recorded written acked hs task live more =>
    refine h.of_chain hs rfl keeps_withStream (s.sameDelivery_goto _) fun _ _ flow => ?_
    have read := flow.readAt task id
    exact ⟨flow.batched.congr (sameBatch_goto s _), flow.taskOk task, fun _ => read⟩
  | @noticeGivenUp s cursor tries recorded written acked hs task live =>
    refine h.of_chain hs rfl keeps_withStream
      ((s.sameDelivery_halt .failed).trans (Stream.sameDelivery_goto _ _)) fun _ goes _ => ?_
    exact absurd goes (s.halt_halted .failed)
  | @fatal s hs idle => exact h.chain ho sound hs answers (.fatal hs idle)
  | @delivered s d hs hd stage =>
    have under := (h.live s hs).delivery d hd
    have keeps : Keeps s.seq w { w with dest := w.dest ++ [{ op := d.op, items := d.items }] } :=
      ⟨rfl, rfl, fun _ h => h, fun _ h => List.mem_append_left _ h, fun _ h _ => h⟩
    refine h.advance hs hd keeps rfl (.refl s) (.refl s) ⟨fun h => (nomatch h), fun _ c hc => ?_⟩
    obtain ⟨i, hi, copy⟩ := hc
    refine ⟨_, List.mem_append_right _ (List.mem_singleton_self _), ?_, i, hi, copy⟩
    exact (under.ops i hi).trans (congrArg some copy.1)
  | @refused s d error targets hs hd stage =>
    exact h.advance hs hd (.refl _ w) rfl (.refl s) (.refl s)
      ⟨fun h => (nomatch h), fun h => (nomatch h)⟩
  | @abandoned s d _ hs hd halted =>
    refine h.of_stream hs rfl (keeps_withStream _) rfl rfl (fun _ h => nomatch h) fun hh => ?_
    rw [show s.halted = none from hh] at halted
    cases halted
  | @worked s d outcome tries a w₁ s₁ seq hs hd stage live hw =>
    have under := (h.live s hs).delivery d hd
    have ok : OutcomeOk w d outcome := under.outcomeOk stage
    have ends := runWork_spec under.seq under.ops ok.1 ok.2 hw
    have keeps : Keeps s.seq w w₁ := under.seq ▸ ends.keeps
    obtain ⟨hle, _, covered⟩ := ends.next seq rfl
    exact h.advance hs hd keeps ends.sameNext ends.delivery ends.chain
      ⟨ok.mono keeps, hle, covered⟩
  | @workThrew s d outcome tries a w₁ s₁ hs hd stage live hw =>
    have under := (h.live s hs).delivery d hd
    have ok : OutcomeOk w d outcome := under.outcomeOk stage
    have ends := runWork_spec under.seq under.ops ok.1 ok.2 hw
    have keeps : Keeps s.seq w w₁ := under.seq ▸ ends.keeps
    exact h.threwAgain hs hd keeps ends.sameNext ends.delivery ends.chain (ok.mono keeps)
  | @workStopped s d outcome tries a w₁ s₁ hs hd stage live hw =>
    have under := (h.live s hs).delivery d hd
    have ok : OutcomeOk w d outcome := under.outcomeOk stage
    have ends := runWork_spec under.seq under.ops ok.1 ok.2 hw
    have keeps : Keeps s.seq w w₁ := under.seq ▸ ends.keeps
    exact h.of_stream hs rfl (keeps.trans (keeps_withStream _)) ends.delivery.seq ends.delivery.watermark
      (fun _ h => nomatch h) fun hh => absurd hh (ends.stopped rfl)
  | @checkpointed s d outcome nextSeq tries acked hs hd stage live =>
    have under := (h.live s hs).delivery d hd
    have ok := under.stage
    rw [stage] at ok
    obtain ⟨_, hle, covered⟩ := ok
    have hle : s.seq ≤ nextSeq := under.seq ▸ hle
    refine Safe.persist rfl (fun c hc hcr => ?_) fun _ => ?_
    · exact (under.reach c hc hcr).elim (fun hk => hk.mono hle) (covered c)
    · have flow := (h.live s hs).flow live
      refine flow.carry (Nat.le_refl _) (fun c hk => ?_) ⟨rfl, rfl, rfl, rfl⟩ fun _ => rfl
      rcases hk with hp | ⟨d', hd', among⟩ | hi
      · exact Or.inl (hp.mono hle)
      · obtain rfl := Option.some.inj (hd.symm.trans hd')
        exact Or.inl (covered c among)
      · exact Or.inr (Or.inr hi)
  | @checkpointThrew s d outcome nextSeq tries acked hs hd stage live =>
    have under := (h.live s hs).delivery d hd
    have ok := under.stage
    rw [stage] at ok
    exact h.threwAgain hs hd (.refl _ w) rfl (.refl s) (.refl s) ok.1
  | @reconnect s n hs hn => exact h.chain ho sound hs answers (.reconnect hs hn)
  | @crash s hs => exact h.chain ho sound hs answers (.crash hs)
  | @restart n passed =>
    refine ⟨h.persisted, fun s hs => ?_⟩
    obtain rfl := Option.some.inj hs
    refine ⟨rfl, rfl, fun _ h => (nomatch h), fun _ => ⟨⟨fun _ h => (nomatch h), fun _ => rfl,
      fun _ h => (nomatch h)⟩, trivial, fun _ i hi c hc => Or.inl (Or.inl ?_)⟩⟩
    have mem : StreamItem.change c ∈ src.take n := by
      rw [List.mem_iff_getElem?]
      exact ⟨i, by rw [List.getElem?_take_of_lt hi]; exact hc⟩
    obtain ⟨p, hp, hle⟩ := sound _ _ (passed _ mem)
    exact h.persisted p hp c (mem_changes.mpr (List.mem_of_getElem? hc)) hle

/-- **The run lemma.** -/
theorem safe_of_run (ho : InOrder src) (sound : SoundCursors b) {w : World γ R Sig}
    {es : List (Event R)} (run : Run (World.step b src) (Answers b) World.fresh es w) :
    Safe src w :=
  run.invariant safe_fresh fun _ _ _ answers h move => h.step ho sound answers move

end Pipeline

/-!
## The statement

Everything before the cursor is accounted for, whenever the process stops.
-/

/-- Applied, stored in the dead-letter queue, filtered out, or dropped as an echo. -/
def Accounted (w : World γ R Sig) (c : CdcChange γ R) : Prop :=
  c.cursor ∈ w.passed ∨ Applied w c ∨ ∃ e ∈ w.deadLetters, e.op = some c.op ∧ Among c e.rows

theorem Covered.accounted {w : World γ R Sig} {n : Nat} {c : CdcChange γ R} (h : Covered w n c) :
    Accounted w c := by
  rcases h with hp | ha | ⟨e, he, _, rest⟩
  · exact Or.inl hp
  · exact Or.inr (Or.inl ha)
  · exact Or.inr (Or.inr ⟨e, he, rest⟩)

variable [DecidableEq Sig]

/-- A run in which every look at the schema is answered. -/
theorem run_of_answered {b : Bridge γ R Sig} {src : List (StreamItem γ R)} {w w' : World γ R Sig}
    {es : List (Event R)} (h : runEvents (World.step b src) w es = some w')
    (quiet : ∀ a, Event.examined a ∈ es → a.drift ≠ .throws) :
    Run (World.step b src) (Answers b) w es w' := by
  induction es generalizing w with
  | nil =>
    obtain rfl : w = w' := by simpa [runEvents] using h
    exact .nil w
  | cons e es ih =>
    obtain ⟨u, hu, rest⟩ := Option.bind_eq_some_iff.mp h
    refine .cons ?_ hu (ih rest fun a ha => quiet a (List.mem_cons_of_mem _ ha))
    rintro s c a - - rfl ⟨c', _, _, throws⟩
    exact quiet a List.mem_cons_self throws

variable [LinearOrder γ]

/-- In every run whose steps meet `ok`, and at each of its states: what the persisted cursor has
passed is accounted for. -/
def LosesNothing (b : Bridge γ R Sig) (src : List (StreamItem γ R))
    (ok : World γ R Sig → Event R → Prop) : Prop :=
  ∀ es w, Run (World.step b src) ok World.fresh es w →
    ∀ p, w.cursorJson = some p → ∀ c ∈ changes src, c.cursor ≤ p → Accounted w c

/-- No change is lost in a run in which no look at the schema throws. -/
theorem losesNothing_of_answers (b : Bridge γ R Sig) (src : List (StreamItem γ R))
    (ho : InOrder src) (sound : SoundCursors b) : LosesNothing b src (Answers b) :=
  fun _ _ run p hp c hc hle => ((safe_of_run ho sound run).persisted p hp c hc hle).accounted

/-! ### A look at the schema that throws

A row is its column list. Three rows are inserted, the second with a column the first did not
have. The look this calls for meets a metadata store that does not answer; the third row has the
first one's columns, fills the batch, and carries the cursor past the second. -/

namespace SchemaLookThrows

def bridge : Bridge Nat String Nat where
  cursorAfter cursor mark := match mark with | some m => decide (m < cursor) | none => true
  handlesSourceFilters := true
  tracksSchema := true
  rowMatchesFilters _ _ := true
  keySignature _ := none
  columnSignature row := row
  hasUnchanged _ := false
  jsonLength _ := 0
  maxBatch := 2
  cdcBatchBytes := 0
  onError := .abort
  databaseDestination := true
  insertTarget := false
  maxConsecutiveFailures := 3
  deadLetterMaxRows := 1000

def src : List (StreamItem Nat String) :=
  [.change { op := .insert, row := "id", cursor := 1 },
   .change { op := .insert, row := "id,name", cursor := 2 },
   .change { op := .insert, row := "id", cursor := 3 }]

def answer (drift : Drift) : Event String :=
  .examined { completion := .as "", drift := drift, echo := .none }

def worked : Event String :=
  .work { recorded := true, isolation := [], counted := true, parked := .ok, recordedAfter := true }

def delivery : List (Event String) :=
  [.flush, .attempted .success, worked, .checkpoint true true]

/-- The second row's look throws, and the third row fills the batch. -/
def thrown : List (Event String) :=
  [.take, answer .clear, .take, answer .throws, .take, answer .clear] ++ delivery

/-- The second row's look is answered, and the row fills the batch. -/
def answered : List (Event String) :=
  [.take, answer .clear, .take, answer .clear] ++ delivery

theorem src_inOrder : InOrder src := by
  unfold InOrder src
  simp [StreamItem.cursor]

theorem bridge_sound : SoundCursors bridge := by
  intro cursor mark h
  cases mark with
  | none => cases h
  | some m => exact ⟨m, rfl, by simpa [bridge] using h⟩

/-- Where the run ends when the look throws: at the third cursor, with two rows delivered. -/
theorem end_of_throws : (runEvents (World.step bridge src) World.fresh thrown).map
    (fun w => (w.cursorJson, w.passed, w.dest, w.deadLetters)) =
    some (some 3, [], [{ op := some .insert, items :=
      [{ change := { op := .insert, row := "id", cursor := 1 }, row := "id", keySig := none },
       { change := { op := .insert, row := "id", cursor := 3 }, row := "id", keySig := none }] }],
      []) :=
  rfl

theorem not_losesNothing :
    InOrder src ∧ SoundCursors bridge ∧ ¬ LosesNothing bridge src anyStep := by
  refine ⟨src_inOrder, bridge_sound, fun always => ?_⟩
  obtain ⟨w, run, hw⟩ := Option.map_eq_some_iff.mp end_of_throws
  simp only [Prod.mk.injEq] at hw
  obtain ⟨cursor, passed, dest, deadLetters⟩ := hw
  have accounted := always _ w (run_of_eval run) 3 cursor
    { op := .insert, row := "id,name", cursor := 2 } (by decide) (by decide)
  simp [Accounted, Applied, Among, Copy, passed, dest, deadLetters] at accounted

/-- Where every look is answered, nothing is lost; here the first two rows have been delivered. -/
theorem losesNothing_answered : LosesNothing bridge src (Answers bridge) ∧
    ∃ w, Run (World.step bridge src) (Answers bridge) World.fresh answered w ∧
      w.cursorJson = some 2 := by
  have shown : (runEvents (World.step bridge src) World.fresh answered).map
      (·.cursorJson) = some (some 2) := by decide
  obtain ⟨w, run, cursor⟩ := Option.map_eq_some_iff.mp shown
  refine ⟨losesNothing_of_answers bridge src src_inOrder bridge_sound, w,
    run_of_answered run ?_, cursor⟩
  simp [answered, delivery, answer, worked]

end SchemaLookThrows

end Syncle.Cdc
