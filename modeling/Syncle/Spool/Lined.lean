import Syncle.Cdc.NoLoss

/-!
# The batch is in line

A batch keeps the order of the stream: whatever comes before one of its rows has been dealt with, is
in the delivery in flight, or stands earlier in the batch (`Lined`). It is what a batch that is cut
into several deliveries needs, and it rests on `KeptBefore`, which the chain knows of the change it
is at. One lemma for each of the chain's functions, as for `Flow`.
-/

namespace Syncle.Cdc

variable {γ R Sig : Type*} [LinearOrder γ]

/-- Whatever comes before one of the rows meets `Q` or stands earlier. -/
def InLine (src : List (StreamItem γ R)) (Q : CdcChange γ R → Prop)
    (items : List (Buffered γ R Sig)) : Prop :=
  ∀ before i after, items = before ++ i :: after →
    ∀ c ∈ changes src, c.cursor < i.change.cursor → Q c ∨ Among c before

/-- The pending batch is in line. -/
def Lined (src : List (StreamItem γ R)) (P : CdcChange γ R → Prop) (s : Stream γ R Sig) : Prop :=
  InLine src (fun c => P c ∨ ∃ d, s.inflight = some d ∧ Among c d.items) s.buffer

/-! ## Rows in line -/

section InLine

variable {src : List (StreamItem γ R)} {Q Q' : CdcChange γ R → Prop}
variable {items : List (Buffered γ R Sig)} {i : Buffered γ R Sig}

theorem InLine.nil : InLine src Q ([] : List (Buffered γ R Sig)) := by
  intro before i after h
  simp at h

theorem InLine.mono (h : InLine src Q items) (imp : ∀ c, Q c → Q' c) : InLine src Q' items :=
  fun before i after split c hc hlt => (h before i after split c hc hlt).imp_left (imp c)

theorem InLine.snoc (h : InLine src Q items)
    (next : ∀ c ∈ changes src, c.cursor < i.change.cursor → Q c ∨ Among c items) :
    InLine src Q (items ++ [i]) := by
  intro before j after split c hc hlt
  cases hafter : after.reverse with
  | nil =>
    -- the row that joins is the last one
    obtain rfl : after = [] := by simpa using hafter
    obtain ⟨rfl, hi⟩ := List.append_inj' split rfl
    obtain rfl : i = j := by simpa using hi
    exact next c hc hlt
  | cons last front =>
    obtain rfl : after = front.reverse ++ [last] := by
      rw [← List.reverse_reverse after, hafter, List.reverse_cons]
    have same : items ++ [i] = (before ++ j :: front.reverse) ++ [last] := by simp [split]
    exact h before j front.reverse (List.append_inj' same rfl).1 c hc hlt

end InLine

/-! ## Through each step of the chain

A row joins at the end, and what takes the batch away leaves an empty one. -/

section Chain

variable {src : List (StreamItem γ R)} {P P' : CdcChange γ R → Prop} {n : ℕ}
variable {b : Bridge γ R Sig} {s s' : Stream γ R Sig}

theorem Lined.congr (h : Lined src P s) (buffer : s'.buffer = s.buffer)
    (inflight : s'.inflight = s.inflight) : Lined src P s' := by
  unfold Lined at h ⊢
  rw [buffer, inflight]
  exact h

theorem Lined.same (h : Lined src P s) (same : SameBatch s s') : Lined src P s' :=
  h.congr same.buffer same.inflight

theorem Lined.carry (h : Lined src P s) (buffer : s'.buffer = s.buffer)
    (kept : ∀ c, (P c ∨ ∃ d, s.inflight = some d ∧ Among c d.items) →
      P' c ∨ ∃ d, s'.inflight = some d ∧ Among c d.items) : Lined src P' s' := by
  have carried := InLine.mono h kept
  unfold Lined
  rw [buffer]
  exact carried

theorem Lined.empty (h : s.buffer = []) : Lined src P s := by
  unfold Lined
  rw [h]
  exact .nil

/-- A row joins once everything before it is kept. -/
theorem Lined.join {i : Buffered γ R Sig} (h : Lined src P s)
    (before : KeptBefore src P s i.change.cursor) (buffer : s'.buffer = s.buffer ++ [i])
    (inflight : s'.inflight = s.inflight) : Lined src P s' := by
  unfold Lined
  rw [buffer, inflight]
  refine InLine.snoc h fun c hc hlt => ?_
  rcases before c hc hlt with dealt | flying | waiting
  · exact Or.inl (Or.inl dealt)
  · exact Or.inl (Or.inr flying)
  · exact Or.inr waiting

theorem lined_notePosition (h : Lined src P s) (cursor : γ) :
    Lined src P (s.notePosition b cursor) := by
  unfold Stream.notePosition
  split
  · exact h
  · split
    · exact h
    · have extended : Lined src P (s.extendTo cursor) := h.congr rfl rfl
      exact extended.same (sameBatch_scheduleFlush _)

theorem lined_flushAndFinish (h : Lined src P s) : Lined src P s.flushAndFinish := by
  unfold Stream.flushAndFinish
  split
  · exact h.congr rfl rfl
  · exact h.congr rfl rfl

theorem lined_joinBatch {i : Buffered γ R Sig} (h : Lined src P s)
    (before : KeptBefore src P s i.change.cursor) : Lined src P (s.joinBatch b i) := by
  have pushed : Lined src P (s.push b i) := h.join before rfl rfl
  unfold Stream.joinBatch
  dsimp only
  split
  · exact lined_flushAndFinish pushed
  · exact (pushed.same (sameBatch_scheduleFlush _)).congr rfl rfl

theorem lined_afterFlush {next : Then γ R Sig} (h : Lined src P s) (ready : Ready src P s next) :
    Lined src P (s.afterFlush b next) := by
  cases next with
  | done => exact h.congr rfl rfl
  | join i =>
    obtain ⟨c, hc, copy, before⟩ := ready
    exact lined_joinBatch h (copy.2 ▸ before)
  | emptied c =>
    simp only [Stream.afterFlush]
    split
    · exact h.congr rfl rfl
    · exact h.congr rfl rfl
  | notice cursor => exact h.congr rfl rfl
  | halt status => exact h.congr rfl rfl

theorem lined_startFlush {next : Then γ R Sig} (h : Lined src P s) (ready : Ready src P s next) :
    Lined src P (s.startFlush b next) := by
  have cleared := sameBatch_clearTimer s
  unfold Stream.startFlush
  split
  · exact lined_afterFlush (h.same cleared) (ready.congr cleared)
  · exact h.congr rfl rfl

/-- The batch that is taken leaves an empty one behind… -/
theorem lined_takeBatch (h : Lined src P s) : Lined src P s.takeBatch := by
  unfold Stream.takeBatch
  split
  · exact h
  · split
    · exact h
    · exact Lined.empty rfl

/-- …and is a delivery in line. -/
theorem inLine_takeBatch {d : Delivery γ R Sig} (h : Lined src P s) (free : s.inflight = none)
    (hd : s.takeBatch.inflight = some d) : InLine src P d.items := by
  have mine : InLine src P s.buffer := InLine.mono h fun c hc => by
    rcases hc with dealt | ⟨d, hd, _⟩
    · exact dealt
    · rw [free] at hd
      cases hd
  unfold Stream.takeBatch at hd
  split at hd
  · rw [free] at hd
    cases hd
  · split at hd
    · rw [free] at hd
      cases hd
    · obtain rfl := Option.some.inj hd
      exact mine

/-- It is all there is up to where it reaches. -/
theorem reach_takeBatch {d : Delivery γ R Sig} (h : Batched src P s) (free : s.inflight = none)
    (hd : s.takeBatch.inflight = some d) :
    ∀ c ∈ changes src, c.cursor ≤ d.reach → P c ∨ Among c d.items := by
  unfold Stream.takeBatch at hd
  split at hd
  · rw [free] at hd
    cases hd
  · next reach hreach =>
    split at hd
    · rw [free] at hd
      cases hd
    · obtain rfl := Option.some.inj hd
      intro c hc hle
      rcases h.tail reach hreach c hc hle with dealt | ⟨d, hd, -⟩ | among
      · exact Or.inl dealt
      · rw [free] at hd
        cases hd
      · exact Or.inr among

theorem lined_flush {next : Then γ R Sig} (h : Lined src P s) (flow : Flow src P n s)
    (task : s.task = .flushing next) (free : s.inflight = none) (live : s.halted = none) :
    Lined src P (s.takeBatch.afterFlush b next) := by
  have kept : ∀ c, Kept P s c → Kept P s.takeBatch c := fun c => Kept.takeBatch free live
  have ready : Ready src P s next := flow.taskOk task
  refine lined_afterFlush (lined_takeBatch h) ?_
  cases next with
  | done => trivial
  | join i =>
    obtain ⟨c, hc, copy, before⟩ := ready
    exact ⟨c, hc, copy, fun c' hc' hlt => kept c' (before c' hc' hlt)⟩
  | emptied c => exact ⟨ready.1, fun c' hc' hlt => kept c' (ready.2 c' hc' hlt)⟩
  | notice cursor => exact fun c' hc' hle => kept c' (ready c' hc' hle)
  | halt status => trivial

theorem lined_takeItem (ho : InOrder src) (h : Lined src P s) (flow : Flow src P n s)
    (idle : s.task = .idle) {item : StreamItem γ R} (hitem : src[n]? = some item) :
    Lined src P (s.takeItem b item) := by
  have read : ReadTo src P n s fun _ => False := flow.readAt idle id
  have before : KeptBefore src P s item.cursor := by
    intro c hc hlt
    obtain ⟨i, hi⟩ := List.mem_iff_getElem?.mp (mem_changes.mp hc)
    exact (read i (ho.index_lt hi hitem hlt) c hi).elim id False.elim
  have mem := List.mem_of_getElem? hitem
  cases item with
  | skip cursor => exact lined_notePosition h cursor
  | notice cursor =>
    simp only [Stream.takeItem]
    split
    · exact h
    · split
      · exact h
      · refine lined_startFlush h fun c hc hle => ?_
        rcases lt_or_eq_of_le hle with hlt | heq
        · exact before c hc hlt
        · cases ho.cursor_inj mem (mem_changes.mp hc) heq.symm
  | change c =>
    simp only [Stream.takeItem]
    split
    · exact h
    · split
      · exact h
      · split
        · exact lined_startFlush h ⟨mem_changes.mpr mem, before⟩
        · exact h.congr rfl rfl

theorem lined_passed (h : Lined src P s) (cursor : γ) :
    Lined src P ((s.goto .idle).notePosition b cursor) := by
  have idle : Lined src P (s.goto .idle) := h.congr rfl rfl
  exact lined_notePosition idle cursor

theorem lined_acceptTruncate (h : Lined src P s) (flow : Flow src P n s) {c : CdcChange γ R}
    {echo : Echo R} (task : s.task = .recognising c) :
    Lined src P (s.acceptTruncate b c echo).1 := by
  obtain ⟨mem, before, empty⟩ := flow.taskOk task
  have alone (row : R) : Lined src P (s.pushTruncate c row).flushAndFinish :=
    lined_flushAndFinish (h.join before rfl rfl)
  unfold Stream.acceptTruncate
  split
  · exact h.congr rfl rfl
  · cases echo with
    | none => exact alone _
    | drop => exact lined_passed h _
    | forward row => exact alone row

/-! What `accept` does with a row is a join, or a flush with the join behind it. -/

variable [DecidableEq Sig]

theorem lined_acceptRow {c₀ c : CdcChange γ R} (h : Lined src P s) (at_c : At src P n s c₀)
    (carries : Carries c₀ c) : Lined src P (s.acceptRow b c) := by
  have before : KeptBefore src P s c.cursor := carries.2 ▸ at_c.before
  unfold Stream.acceptRow
  dsimp only
  split
  · exact lined_startFlush h ⟨c₀, at_c.mem, ⟨carries.1, carries.2⟩, at_c.before⟩
  · exact lined_joinBatch h before

theorem lined_acceptMatching {c₀ c : CdcChange γ R} (h : Lined src P s) (at_c : At src P n s c₀)
    (carries : Carries c₀ c) (echo : Echo R) : Lined src P (s.acceptMatching b c echo).1 := by
  unfold Stream.acceptMatching
  split
  · exact lined_passed h _
  · cases echo with
    | none => exact lined_acceptRow h at_c carries
    | drop =>
      dsimp only
      split
      · exact h.congr rfl rfl
      · exact lined_passed h _
    | forward row =>
      dsimp only
      split
      · exact h.congr rfl rfl
      · exact lined_acceptRow h at_c carries

theorem lined_acceptChecked {c₀ c : CdcChange γ R} (h : Lined src P s) (at_c : At src P n s c₀)
    (carries : Carries c₀ c) (drift : Drift) (echo : Echo R) :
    Lined src P (s.acceptChecked b c drift echo).1 := by
  have same := sameBatch_see (b := b) s c
  have matching : Lined src P ((s.see b c).acceptMatching b c echo).1 :=
    lined_acceptMatching (h.same same) (at_c.congr same) carries echo
  unfold Stream.acceptChecked
  split
  · cases drift with
    | throws => exact h.congr rfl rfl
    | stop =>
      dsimp only
      split
      · exact h.congr rfl rfl
      · exact lined_startFlush h trivial
    | clear =>
      dsimp only
      split
      · exact h.congr rfl rfl
      · exact matching
  · exact matching

theorem lined_examine (h : Lined src P s) (flow : Flow src P n s) {c : CdcChange γ R}
    {a : Examined R} (task : s.task = .examining c) : Lined src P (s.examine b c a).1 := by
  obtain ⟨mem, before⟩ := flow.taskOk task
  have at_c : At src P n s c := ⟨flow.batched, mem, before, fun i hi c' hc' =>
    (flow.readAt task id i hi c' hc').imp_right Eq.symm⟩
  unfold Stream.examine
  cases completed : Stream.completeRow b c a.completion with
  | none =>
    refine h.congr ?_ ?_
    · exact (Stream.sameChain_halt s .failed).buffer
    · exact (Stream.sameDelivery_halt s .failed).inflight
  | some c' =>
    have carries : Carries c c' := by
      revert completed
      unfold Stream.completeRow
      split
      · split
        · rintro ⟨⟩
          exact ⟨rfl, rfl⟩
        · exact fun h => by cases h
      · rintro ⟨⟩
        exact ⟨rfl, rfl⟩
    exact lined_acceptChecked h at_c carries a.drift a.echo

/-- **A batch in line, over one event of the chain.** -/
theorem ChainMoves.lined (ho : InOrder src) {w w' : World γ R Sig} {e : Event R}
    (move : ChainMoves b src w e w') (hs : w.stream = some s) (hs' : w'.stream = some s')
    (live : s.halted = none) (flow : Flow src P w.next s) (h : Lined src P s) : Lined src P s' := by
  cases move with
  | @take s item hs₀ idle hitem =>
    obtain rfl := Option.some.inj (hs.symm.trans hs₀)
    obtain rfl := Option.some.inj hs'
    exact lined_takeItem ho h flow idle hitem
  | @examined s c a hs₀ task =>
    obtain rfl := Option.some.inj (hs.symm.trans hs₀)
    obtain rfl := Option.some.inj hs'
    exact lined_examine h flow task
  | @recognised s c a hs₀ task =>
    obtain rfl := Option.some.inj (hs.symm.trans hs₀)
    obtain rfl := Option.some.inj hs'
    exact lined_acceptTruncate h flow task
  | timer hs₀ armed =>
    obtain rfl := Option.some.inj (hs.symm.trans hs₀)
    obtain rfl := Option.some.inj hs'
    exact h.congr rfl rfl
  | @timedFlush s k hs₀ idle fired =>
    obtain rfl := Option.some.inj (hs.symm.trans hs₀)
    obtain rfl := Option.some.inj hs'
    have fired : Lined src P { s with timedFlushes := k } := h.congr rfl rfl
    exact lined_flushAndFinish fired
  | flush hs₀ task free =>
    obtain rfl := Option.some.inj (hs.symm.trans hs₀)
    obtain rfl := Option.some.inj hs'
    exact lined_flush h flow task free live
  | noticeDrained hs₀ task free =>
    obtain rfl := Option.some.inj (hs.symm.trans hs₀)
    obtain rfl := Option.some.inj hs'
    exact h.congr rfl rfl
  | @haltDrained s status hs₀ task free =>
    obtain rfl := Option.some.inj (hs.symm.trans hs₀)
    obtain rfl := Option.some.inj hs'
    exact h.congr (s.sameChain_halt status).buffer (s.sameDelivery_halt status).inflight
  | fatal hs₀ idle =>
    obtain rfl := Option.some.inj (hs.symm.trans hs₀)
    obtain rfl := Option.some.inj hs'
    split
    · exact h
    · exact lined_startFlush h trivial
  | reconnect hs₀ hn =>
    obtain rfl := Option.some.inj (hs.symm.trans hs')
    exact h
  | crash => cases hs'

end Chain

end Syncle.Cdc
