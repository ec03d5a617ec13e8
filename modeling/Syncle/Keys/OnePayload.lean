import Syncle.Keys.Direct
import Syncle.Keys.Poll
import Syncle.Keys.Replay
import Syncle.Keys.Spooled

/-!
# An Idempotency-Key names one payload

The three modes, the live one with and without the spool. In each of them a key is derived from state
that is not recorded with the batch: the batch size, the end of a batch that a timer cut, the row's key
without what else the row has.
-/

namespace Syncle.Keys

open Lib Jobs

/-- **One key, one payload**, in every run whose batches are sent again as they were. -/
theorem onePayload_of_sameBatches {R δ γ : Type*} [LinearOrder γ] (src : Watched R δ)
    (cursorAfter : γ → Option γ → Bool) :
    (∀ (rd : Reading) (b : Nat) (w : Replay) (es : List Activity) (s : ReplaySending), 0 < b →
      w.Fresh → w.job.snapshot.batchSize = b → w.config.batchSize = b →
      Run (replaySendingStep rd) (fun s e => keepsSize rd b s.replay e) { replay := w } es s →
      OnePayload s.sent) ∧
    (∀ (es : List (PollEvent R)) (s : Polling R δ),
      Run (Polling.step src) (Polling.keepsRows src) {} es s → OnePayload s.sent) ∧
    (∀ (es : List (LiveEvent γ R)) (w : Live γ R),
      Run (Live.step cursorAfter) (Live.keepsBatches cursorAfter) {} es w → OnePayload w.sent) ∧
    ∀ (es : List (SpoolEvent γ R)) (w : Spooling γ R),
      Run Spooling.step Spooling.keepsRuns {} es w → OnePayload w.sent := by
  refine ⟨fun rd b w es s pos fresh snapshot config run => ?_, fun es s run => ?_,
    fun es w run => ?_, fun es w run => ?_⟩
  · exact replay_onePayload pos fresh ⟨snapshot, config⟩ run
  · exact Polling.poll_onePayload run
  · exact Live.direct_onePayload run
  · exact Spooling.spooled_onePayload run

/-! ## Batches that are cut again -/

namespace CutAgain

def rd : Reading := .byOffset 2 (some 2)

def config (batchSize : Nat) : Config := { batchSize := batchSize, onError := .abort }

def bridge : Replay where
  config := config 2
  job := {
    status := .queued, cursorOffset := 0, keyset := none, streamed := false, snapshot := config 2,
    totalCount := none, deliveries := [], resend := false }
  worker := .idle

/-- Two rows are sent, and the run is canceled before they are recorded. -/
def sentOnce : List Activity := [.process false, .read, .read, .flush, .cancel]

/-- The bridge is given batches of one row, and the run is resumed. -/
def resized : List Activity := sentOnce ++ [.edit (config 1), .resume, .process false, .read, .flush]

/-- …or it is left as it is. -/
def resumed : List Activity := sentOnce ++ [.resume, .process false, .read, .read, .flush]

/-- Rows with an id and a name, watched by the id (`increment`). -/
def watched : Watched (Nat × String) String where
  rowKey row := "[" ++ toString row.1 ++ "]"
  rowKey_plain row mem := by
    simp only [String.toList_append, List.mem_append] at mem
    rcases mem with (first | digit) | last
    · revert first
      decide
    · rw [Nat.toString_eq_ofList_toDigits, String.toList_ofList] at digit
      exact absurd (Nat.isDigit_of_mem_toDigits (by decide) (by decide) digit) (by decide)
    · revert last
      decide
  timestamp := false
  tracked _ := ""
  digest text := text
  digest_inj := Function.injective_id

/-- A row is sent, its poll dies, and by the next one its name is another. -/
def polled (again : String) : List (PollEvent (Nat × String)) :=
  [.begin, .page [(1, "old")], .send, .leave, .begin, .page [(1, again)], .send]

def after (cursor : Nat) (mark : Option Nat) : Bool := mark.all fun m => decide (m < cursor)

def a : Item Nat (Nat × String) := { cursor := 1, row := (1, "a") }

def b : Item Nat (Nat × String) := { cursor := 2, row := (2, "b") }

/-- A full batch is sent, and the process dies before its checkpoint. -/
def taken : List (LiveEvent Nat (Nat × String)) :=
  [.start, .accept a, .accept b, .flush, .leave, .start]

/-- The two changes come again, with the linger of the batch between them. -/
def lingered : List (LiveEvent Nat (Nat × String)) :=
  taken ++ [.accept a, .flush, .checkpoint, .accept b, .flush]

def flushedAgain : List (LiveEvent Nat (Nat × String)) := taken ++ [.accept a, .accept b, .flush]

def waiting : List (SpoolEvent Nat (Nat × String)) :=
  [.start, .append [.change a, .change b], .begin 2, .leave, .start]

/-- The spool is read with a window of one. -/
def narrowed : List (SpoolEvent Nat (Nat × String)) := waiting ++ [.begin 1, .trim, .save, .begin 1]

/-- The run is cut as it was, delivered, and left behind. -/
def cutAsBefore : List (SpoolEvent Nat (Nat × String)) :=
  waiting ++ [.begin 2, .record false, .trim, .save]

theorem onePayload_of_sameBatches_again :
    (∃ s, Run (replaySendingStep rd) (fun s e => keepsSize rd 2 s.replay e) { replay := bridge } resumed s ∧
      s.sent.length = 2 ∧ OnePayload s.sent) ∧
    (∃ s, Run (Polling.step watched) (Polling.keepsRows watched) {} (polled "old") s ∧
      s.sent.length = 2 ∧ OnePayload s.sent) ∧
    (∃ w, Run (Live.step after) (Live.keepsBatches after) {} flushedAgain w ∧
      w.sent.length = 2 ∧ OnePayload w.sent) ∧
    ∃ w, Run Spooling.step Spooling.keepsRuns {} cutAsBefore w ∧
      w.sent.length = 2 ∧ OnePayload w.sent := by
  obtain ⟨replay, poll, direct, spooled⟩ := onePayload_of_sameBatches watched after
  have fresh : bridge.Fresh := ⟨Or.inr rfl, rfl, rfl, rfl, rfl, by decide, rfl, rfl⟩
  refine ⟨?_, ?_, ?_, ?_⟩
  · have run : Run (replaySendingStep rd) (fun s e => keepsSize rd 2 s.replay e)
        { replay := bridge } resumed _ := run_iff_runEvents.mpr rfl
    exact ⟨_, run, rfl, replay rd 2 bridge resumed _ (by decide) fresh rfl rfl run⟩
  · have run : Run (Polling.step watched) (Polling.keepsRows watched) {} (polled "old") _ :=
      run_iff_runEvents.mpr rfl
    exact ⟨_, run, rfl, poll _ _ run⟩
  · have run : Run (Live.step after) (Live.keepsBatches after) {} flushedAgain _ :=
      run_iff_runEvents.mpr rfl
    exact ⟨_, run, rfl, direct _ _ run⟩
  · have run : Run (Spooling.step (R := Nat × String)) Spooling.keepsRuns {} cutAsBefore _ :=
      run_iff_runEvents.mpr rfl
    exact ⟨_, run, rfl, spooled _ _ run⟩

theorem not_onePayload :
    (¬ ∀ (w : Replay) (es : List Activity) (s : ReplaySending), w.Fresh →
      Run (replaySendingStep rd) anyStep { replay := w } es s → OnePayload s.sent) ∧
    (¬ ∀ (es : List (PollEvent (Nat × String))) (s : Polling (Nat × String) String),
      Run (Polling.step watched) anyStep {} es s → OnePayload s.sent) ∧
    (¬ ∀ (es : List (LiveEvent Nat (Nat × String))) (w : Live Nat (Nat × String)),
      Run (Live.step after) anyStep {} es w → OnePayload w.sent) ∧
    ¬ ∀ (es : List (SpoolEvent Nat (Nat × String))) (w : Spooling Nat (Nat × String)),
      Run Spooling.step anyStep {} es w → OnePayload w.sent := by
  refine ⟨fun all => ?_, fun all => ?_, fun all => ?_, fun all => ?_⟩
  · have fresh : bridge.Fresh := ⟨Or.inr rfl, rfl, rfl, rfl, rfl, by decide, rfl, rfl⟩
    have one := all bridge resized _ fresh (run_of_eval rfl)
    exact nomatch (one _ List.mem_cons_self _ (List.mem_cons_of_mem _ List.mem_cons_self)).payload rfl
  · have one := all (polled "new") _ (run_of_eval rfl)
    have same := (one _ List.mem_cons_self _ (List.mem_cons_of_mem _ List.mem_cons_self)).payload rfl
    revert same
    decide
  · have one := all lingered _ (run_of_eval rfl)
    exact nomatch (one _ List.mem_cons_self _
      (List.mem_cons_of_mem _ (List.mem_cons_of_mem _ List.mem_cons_self))).payload rfl
  · have one := all narrowed _ (run_of_eval rfl)
    exact nomatch (one _ List.mem_cons_self _
      (List.mem_cons_of_mem _ (List.mem_cons_of_mem _ List.mem_cons_self))).payload rfl

end CutAgain

end Syncle.Keys
