import Syncle.Cdc.Moves

/-!
# What `work` leaves behind

`work` is the body `settle` repeats once a delivery has answered: it records, and for a batch
that failed it finds the rows at fault and parks them. Its callers use one fact about it,
`runWork_spec`: however it goes, nothing already written is taken back (`Keeps`), and when it
names the sequence to carry on from, every row of the batch is at the destination or
in the dead-letter queue below that sequence.

"Below that sequence" is what makes a retry safe to reason about. Parking replaces the pending
entries from the batch's own sequence on, so an entry counts only once the sequence has moved
beyond it.
-/

namespace Syncle.Cdc

variable {γ R Sig : Type*}

/-! ## Which change a row is -/

/-- `i` is the change `c` as it was buffered; its row may have been completed or marked. -/
def Copy (c : CdcChange γ R) (i : Buffered γ R Sig) : Prop :=
  i.change.op = c.op ∧ i.change.cursor = c.cursor

def Among (c : CdcChange γ R) (items : List (Buffered γ R Sig)) : Prop :=
  ∃ i ∈ items, Copy c i

/-- Applied at the destination, under its own operation, by a delivery that succeeded. -/
def Applied (w : World γ R Sig) (c : CdcChange γ R) : Prop :=
  ∃ batch ∈ w.dest, batch.op = some c.op ∧ Among c batch.items

/-- Stored in the dead-letter queue, below sequence `n`. -/
def Parked (w : World γ R Sig) (n : Nat) (c : CdcChange γ R) : Prop :=
  ∃ e ∈ w.deadLetters, e.sequence < n ∧ e.op = some c.op ∧ Among c e.rows

/-- Dealt with, as far as sequence `n`. -/
def Covered (w : World γ R Sig) (n : Nat) (c : CdcChange γ R) : Prop :=
  c.cursor ∈ w.passed ∨ Applied w c ∨ Parked w n c

/-- `w'` has everything `w` has; of the dead letters, those below `n`. -/
structure Keeps (n : Nat) (w w' : World γ R Sig) : Prop where
  cursorJson : w'.cursorJson = w.cursorJson
  cursorOffset : w'.cursorOffset = w.cursorOffset
  passed : ∀ c ∈ w.passed, c ∈ w'.passed
  dest : ∀ batch ∈ w.dest, batch ∈ w'.dest
  deadLetters : ∀ e ∈ w.deadLetters, e.sequence < n → e ∈ w'.deadLetters

theorem Keeps.refl (n : Nat) (w : World γ R Sig) : Keeps n w w :=
  ⟨rfl, rfl, fun _ h => h, fun _ h => h, fun _ h _ => h⟩

theorem Keeps.trans {n : Nat} {w w' w'' : World γ R Sig} (h₁ : Keeps n w w')
    (h₂ : Keeps n w' w'') : Keeps n w w'' :=
  ⟨h₂.cursorJson.trans h₁.cursorJson, h₂.cursorOffset.trans h₁.cursorOffset, fun c hc => h₂.passed c (h₁.passed c hc),
    fun batch hb => h₂.dest batch (h₁.dest batch hb),
    fun e he hlt => h₂.deadLetters e (h₁.deadLetters e he hlt) hlt⟩

theorem Keeps.applied {n : Nat} {w w' : World γ R Sig} (h : Keeps n w w') {c : CdcChange γ R}
    (ha : Applied w c) : Applied w' c :=
  let ⟨batch, hb, rest⟩ := ha
  ⟨batch, h.dest batch hb, rest⟩

theorem Keeps.covered {n m : Nat} {w w' : World γ R Sig} (h : Keeps n w w') (hm : m ≤ n)
    {c : CdcChange γ R} (hc : Covered w m c) : Covered w' m c := by
  rcases hc with hp | ha | ⟨e, he, hseq, rest⟩
  · exact Or.inl (h.passed _ hp)
  · exact Or.inr (Or.inl (h.applied ha))
  · exact Or.inr (Or.inr ⟨e, h.deadLetters e he (by omega), hseq, rest⟩)

theorem Covered.mono {w : World γ R Sig} {n m : Nat} (hnm : n ≤ m) {c : CdcChange γ R}
    (h : Covered w n c) : Covered w m c := by
  rcases h with hp | ha | ⟨e, he, hseq, rest⟩
  · exact Or.inl hp
  · exact Or.inr (Or.inl ha)
  · exact Or.inr (Or.inr ⟨e, he, by omega, rest⟩)

@[simp] theorem park_next {n : Nat} {w : World γ R Sig} {entries : List (DeadLetter γ R Sig)} :
    (w.park entries n).next = w.next := by
  unfold World.park
  split
  · rfl
  · rfl

theorem keeps_park {n : Nat} {w : World γ R Sig} {entries : List (DeadLetter γ R Sig)} :
    Keeps n w (w.park entries n) := by
  unfold World.park
  split
  · exact .refl n w
  · exact ⟨rfl, rfl, fun _ h => h, fun _ h => h, fun e he hlt =>
      List.mem_append.mpr (Or.inl (List.mem_filter.mpr ⟨he, by simpa using hlt⟩))⟩

theorem mem_park {w : World γ R Sig} {entries : List (DeadLetter γ R Sig)} {n : Nat}
    {e : DeadLetter γ R Sig} (he : e ∈ entries) : e ∈ (w.park entries n).deadLetters := by
  unfold World.park
  split
  · next empty => rw [List.isEmpty_iff.mp empty] at he; cases he
  · exact List.mem_append.mpr (Or.inr he)

theorem keeps_withStream {w : World γ R Sig} {s : Stream γ R Sig} (m : Nat) :
    Keeps m w (w.withStream s) :=
  ⟨rfl, rfl, fun _ h => h, fun _ h => h, fun _ h _ => h⟩

theorem keeps_pass {w : World γ R Sig} {cursor : γ} {yes : Bool} (m : Nat) :
    Keeps m w (w.pass cursor yes) := by
  unfold World.pass
  split
  · exact ⟨rfl, rfl, fun _ h => List.mem_append_left _ h, fun _ h => h, fun _ h _ => h⟩
  · exact .refl m w

/-! ## The chain's part -/

namespace Stream

/-- `s'` has what the chain works on as `s` has it. -/
structure SameChain (s s' : Stream γ R Sig) : Prop where
  buffer : s'.buffer = s.buffer
  bufferOp : s'.bufferOp = s.bufferOp
  tailCursor : s'.tailCursor = s.tailCursor
  task : s'.task = s.task

theorem SameChain.refl (s : Stream γ R Sig) : SameChain s s := ⟨rfl, rfl, rfl, rfl⟩

theorem sameChain_halt (s : Stream γ R Sig) (status : HaltStatus) :
    SameChain s (s.halt status) := by
  unfold halt
  split
  · exact .refl s
  · exact ⟨rfl, rfl, rfl, rfl⟩

end Stream

/-! ## `work` -/

/-- How one run of `work` on the delivery `d` may end. -/
structure WorkEnds (d : Delivery γ R Sig) (w : World γ R Sig) (s : Stream γ R Sig)
    (w' : World γ R Sig) (s' : Stream γ R Sig) (r : Work) : Prop where
  sameNext : w'.next = w.next
  keeps : Keeps d.seq w w'
  delivery : s.SameDelivery s'
  chain : s.SameChain s'
  stopped : r = .stopped → s'.halted ≠ none
  next : ∀ n, r = .next n → d.seq ≤ n ∧ s'.halted = s.halted ∧
    ∀ c, Among c d.items → Covered w' n c

/-- Every row of the batch is at the destination, or among the failed ones. -/
def Sorted (d : Delivery γ R Sig) (w : World γ R Sig) (failed : List (Failed γ R Sig)) : Prop :=
  ∀ i ∈ d.items, (∃ batch ∈ w.dest, batch.op = d.op ∧ i ∈ batch.items) ∨ ∃ f ∈ failed, i ∈ f.rows

theorem WorkEnds.threw {d : Delivery γ R Sig} {w w' : World γ R Sig} {s s' : Stream γ R Sig}
    (sameNext : w'.next = w.next)
    (keeps : Keeps d.seq w w') (delivery : s.SameDelivery s') (chain : s.SameChain s') :
    WorkEnds d w s w' s' .threw :=
  ⟨sameNext, keeps, delivery, chain, fun h => (nomatch h), fun _ h => (nomatch h)⟩

theorem stopBatch_spec {d : Delivery γ R Sig} {w w' : World γ R Sig} {s s' : Stream γ R Sig}
    (sameNext : w'.next = w.next)
    (keeps : Keeps d.seq w w') (delivery : s.SameDelivery s') (chain : s.SameChain s')
    (recorded : Bool) :
    WorkEnds d w s (stopBatch w' s' recorded).1 (stopBatch w' s' recorded).2.1
      (stopBatch w' s' recorded).2.2 := by
  unfold stopBatch
  split
  · refine ⟨sameNext, keeps, delivery.trans (Stream.sameDelivery_halt s' _), ?_, fun _ => s'.halt_halted _,
      fun _ h => (nomatch h)⟩
    have halts := Stream.sameChain_halt s' .paused
    exact ⟨halts.buffer.trans chain.buffer, halts.bufferOp.trans chain.bufferOp,
      halts.tailCursor.trans chain.tailCursor, halts.task.trans chain.task⟩
  · exact .threw sameNext keeps delivery chain

/-- A row found in one of the two is covered from the parked sequence's successor on. -/
theorem covered_of_sorted {d : Delivery γ R Sig} {w w' : World γ R Sig}
    {failed : List (Failed γ R Sig)} {n : Nat} (hop : ∀ i ∈ d.items, d.op = some i.change.op)
    (sorted : Sorted d w failed) (dest : ∀ batch ∈ w.dest, batch ∈ w'.dest)
    (parked : ∀ f ∈ failed, ∃ e ∈ w'.deadLetters, e.sequence < n ∧ e.op = d.op ∧ e.rows = f.rows)
    {c : CdcChange γ R} (hc : Among c d.items) : Covered w' n c := by
  obtain ⟨i, hi, copy⟩ := hc
  have op : d.op = some c.op := by rw [hop i hi, copy.1]
  rcases sorted i hi with ⟨batch, hb, bop, mem⟩ | ⟨f, hf, mem⟩
  · exact Or.inr (Or.inl ⟨batch, dest batch hb, bop.trans op, i, mem, copy⟩)
  · obtain ⟨e, he, hseq, eop, rows⟩ := parked f hf
    exact Or.inr (Or.inr ⟨e, he, hseq, eop.trans op, i, rows ▸ mem, copy⟩)

theorem parkFailed_spec {w₀ w : World γ R Sig} {s s' : Stream γ R Sig} {d : Delivery γ R Sig}
    {sequence : Nat} {failed : List (Failed γ R Sig)} {a : Worked}
    (hop : ∀ i ∈ d.items, d.op = some i.change.op) (sorted : Sorted d w failed)
    (sameNext : w.next = w₀.next) (keeps : Keeps d.seq w₀ w) (delivery : s.SameDelivery s') (chain : s.SameChain s')
    (halted : s'.halted = s.halted) (hle : d.seq ≤ sequence) :
    WorkEnds d w₀ s (parkFailed w s' d sequence failed a).1
      (parkFailed w s' d sequence failed a).2.1 (parkFailed w s' d sequence failed a).2.2 := by
  have parks : Keeps d.seq w₀ (w.park (entriesOf d sequence failed) d.seq) := keeps.trans keeps_park
  unfold parkFailed
  split
  · exact .threw sameNext keeps delivery chain
  · exact .threw (park_next.trans sameNext) parks delivery chain
  · dsimp only
    split
    · refine ⟨park_next.trans sameNext, parks, delivery, chain, fun h => (nomatch h), fun n hn => ?_⟩
      obtain rfl := Work.next.inj hn
      refine ⟨by omega, halted, fun c hc => covered_of_sorted hop sorted keeps_park.dest ?_ hc⟩
      intro f hf
      exact ⟨_, mem_park (List.mem_map_of_mem hf), Nat.lt_succ_self sequence, rfl, rfl⟩
    · exact .threw (park_next.trans sameNext) parks delivery chain

theorem settleFailed_spec {b : Bridge γ R Sig} {w₀ w : World γ R Sig} {s : Stream γ R Sig}
    {d : Delivery γ R Sig} {delivered : List (Buffered γ R Sig)}
    {failed : List (Failed γ R Sig)} {a : Worked} (hop : ∀ i ∈ d.items, d.op = some i.change.op)
    (sorted : Sorted d w failed) (sameNext : w.next = w₀.next) (keeps : Keeps d.seq w₀ w) :
    WorkEnds d w₀ s (settleFailed b w s d delivered failed a).1
      (settleFailed b w s d delivered failed a).2.1
      (settleFailed b w s d delivered failed a).2.2 := by
  have delivery : s.SameDelivery (countFailure s delivered) := ⟨rfl, rfl, rfl, id⟩
  have chain : s.SameChain (countFailure s delivered) := ⟨rfl, rfl, rfl, rfl⟩
  unfold settleFailed
  split
  · next none =>
    dsimp only
    split
    · refine ⟨sameNext, keeps, ⟨rfl, rfl, rfl, id⟩, ⟨rfl, rfl, rfl, rfl⟩, fun h => (nomatch h), ?_⟩
      intro n hn
      obtain rfl := Work.next.inj hn
      refine ⟨Nat.le_succ _, rfl, fun c hc => covered_of_sorted hop sorted (fun _ h => h) ?_ hc⟩
      rw [List.isEmpty_iff.mp none]
      intro f hf
      cases hf
    · exact .threw sameNext keeps ⟨rfl, rfl, rfl, id⟩ ⟨rfl, rfl, rfl, rfl⟩
  · split
    · exact stopBatch_spec sameNext keeps delivery chain _
    · split
      · exact .threw sameNext keeps delivery chain
      · split
        · exact stopBatch_spec sameNext keeps delivery chain _
        · refine parkFailed_spec hop sorted sameNext keeps delivery chain rfl ?_
          unfold failedSequence
          split
          · exact Nat.le_succ _
          · exact Nat.le_refl _

/-! ### Which rows are at fault -/

theorem mem_chunks {α : Type*} {n : Nat} (hn : 0 < n) : ∀ (fuel : Nat) (rows : List α),
    rows.length ≤ fuel → ∀ x ∈ rows, ∃ chunk ∈ chunks n fuel rows, x ∈ chunk := by
  intro fuel
  induction fuel with
  | zero =>
    intro rows hlen x hx
    rw [List.length_eq_zero_iff.mp (Nat.le_zero.mp hlen)] at hx
    cases hx
  | succ fuel ih =>
    intro rows hlen x hx
    cases rows with
    | nil => cases hx
    | cons r rows =>
      simp only [chunks, List.mem_cons]
      rw [← List.take_append_drop n (r :: rows), List.mem_append] at hx
      rcases hx with hx | hx
      · exact ⟨_, Or.inl rfl, hx⟩
      · have hdrop : ((r :: rows).drop n).length ≤ fuel := by
          rw [List.length_drop]
          simp only [List.length_cons] at hlen ⊢
          omega
        obtain ⟨chunk, hchunk, hmem⟩ := ih _ hdrop x hx
        exact ⟨chunk, Or.inr hchunk, hmem⟩

/-- `dest` grew to what the isolation has written, and what it calls delivered was written. -/
def Written (op : Option CdcOperation) (dest : List (Batch γ R Sig))
    (st : List (IsolationAttempt String) × List (Batch γ R Sig))
    (delivered : List (Buffered γ R Sig)) : Prop :=
  (∀ batch ∈ dest, batch ∈ st.2) ∧ ∀ i ∈ delivered, ∃ batch ∈ st.2, batch.op = op ∧ i ∈ batch.items

theorem attemptPart_written (op : Option CdcOperation) (dest : List (Batch γ R Sig))
    (st : List (IsolationAttempt String) × List (Batch γ R Sig))
    (delivered rows : List (Buffered γ R Sig)) (skip : List String)
    (h : Written op dest st delivered) :
    Written op dest (attemptPart op st rows skip).2
      (if (attemptPart op st rows skip).1.ok then delivered ++ rows else delivered) := by
  obtain ⟨kept, written⟩ := h
  unfold attemptPart
  split
  · exact ⟨kept, written⟩
  · next a answers _ =>
    cases hok : a.ok with
    | false => exact ⟨kept, written⟩
    | true =>
      refine ⟨fun batch hb => List.mem_append_left _ (kept batch hb), fun i hi => ?_⟩
      rcases List.mem_append.mp hi with hi | hi
      · obtain ⟨batch, hb, rest⟩ := written i hi
        exact ⟨batch, List.mem_append_left _ hb, rest⟩
      · exact ⟨_, List.mem_append_right _ (List.mem_singleton_self _), rfl, hi⟩

theorem handleFailedBatch_spec (b : Bridge γ R Sig) (w : World γ R Sig) (s : Stream γ R Sig)
    {d : Delivery γ R Sig} (error : String) (targets : List String) (a : Worked)
    (hop : ∀ i ∈ d.items, d.op = some i.change.op) :
    WorkEnds d w s (handleFailedBatch b w s d error targets a).1
      (handleFailedBatch b w s d error targets a).2.1
      (handleFailedBatch b w s d error targets a).2.2 := by
  unfold handleFailedBatch
  split
  · exact stopBatch_spec rfl (.refl _ w) (.refl s) (.refl s) _
  · split
    · have written := isolateFailures_invariant (isolationOptions error targets)
        (Written d.op w.dest) (attemptPart_written d.op w.dest) (a.isolation, w.dest) d.items
        ⟨fun _ h => h, fun _ h => (nomatch h)⟩
      have every (certain) (i : Buffered γ R Sig) (hi : i ∈ d.items) := mem_of_isolateFailures
        (attemptPart d.op) (isolationOptions error targets) (a.isolation, w.dest) d.items certain hi
      revert written every
      generalize isolateFailures (attemptPart d.op) (isolationOptions error targets)
        (a.isolation, w.dest) d.items = found
      obtain ⟨found, answers, dest⟩ := found
      intro written every
      have keeps : Keeps d.seq w { w with dest := dest } :=
        ⟨rfl, rfl, fun _ h => h, written.1, fun _ h _ => h⟩
      have sameNext : ({ w with dest := dest } : World γ R Sig).next = w.next := rfl
      dsimp only at every ⊢
      split
      · exact stopBatch_spec sameNext keeps (.refl s) (.refl s) _
      · next certain =>
        refine settleFailed_spec hop (fun i hi => ?_) sameNext keeps
        rcases every (by simpa using certain) i hi with hd | hp
        · exact Or.inl (written.2 i hd)
        · obtain ⟨p, poisoned, rfl⟩ := List.mem_map.mp hp
          exact Or.inr ⟨_, List.mem_map_of_mem poisoned, List.mem_singleton_self _⟩
    · refine settleFailed_spec hop (fun i hi => Or.inr ?_) rfl (.refl _ w)
      obtain ⟨chunk, hchunk, hmem⟩ :=
        mem_chunks (by decide : 0 < deadLetterChunk) _ d.items (Nat.le_refl _) i hi
      exact ⟨_, List.mem_map_of_mem hchunk, hmem⟩

/-- **One run of `work`.** What it needs to know of the delivery is only what the attempt
established: a success is at the destination, and an empty batch is empty. -/
theorem runWork_spec {b : Bridge γ R Sig} {w w' : World γ R Sig} {s s' : Stream γ R Sig}
    {d : Delivery γ R Sig} {outcome : Outcome} {a : Worked} {r : Work}
    (hseq : d.seq = s.seq) (hop : ∀ i ∈ d.items, d.op = some i.change.op)
    (empty : outcome = .nothing → d.items = [])
    (success : outcome = .success → ∀ c, Among c d.items → Applied w c)
    (h : runWork b w s d outcome a = (w', s', r)) : WorkEnds d w s w' s' r := by
  cases outcome with
  | nothing =>
    simp only [runWork, Prod.mk.injEq] at h
    obtain ⟨rfl, rfl, rfl⟩ := h
    refine ⟨rfl, .refl _ w, .refl s, .refl s, fun h => (nomatch h), fun n hn => ?_⟩
    obtain rfl := Work.next.inj hn
    refine ⟨Nat.le_of_eq hseq, rfl, fun c hc => ?_⟩
    obtain ⟨i, hi, _⟩ := hc
    rw [empty rfl] at hi
    cases hi
  | success =>
    simp only [runWork] at h
    split at h
    · obtain ⟨rfl, rfl, rfl⟩ : w = w' ∧ { s with consecutiveFailures := 0 } = s' ∧
          Work.next (d.seq + 1) = r := by simpa using h
      refine ⟨rfl, .refl _ w, ⟨rfl, rfl, rfl, id⟩, ⟨rfl, rfl, rfl, rfl⟩, fun h => (nomatch h), ?_⟩
      intro n hn
      obtain rfl := Work.next.inj hn
      exact ⟨Nat.le_succ _, rfl, fun c hc => Or.inr (Or.inl (success rfl c hc))⟩
    · obtain ⟨rfl, rfl, rfl⟩ : w = w' ∧ s = s' ∧ Work.threw = r := by simpa using h
      exact .threw rfl (.refl _ w) (.refl s) (.refl s)
  | failed error targets =>
    have ends := handleFailedBatch_spec b w s error targets a hop
    rw [runWork] at h
    rw [h] at ends
    exact ends

end Syncle.Cdc
