import Mathlib.Tactic.Linarith
import Mathlib.Tactic.Positivity
import Syncle.Http.Send

/-!
# A delivery reports what happened

The loop makes the tries it should, throws on an abort only and tells a success from a failure
(`ending_of_send`). Of a failure it reports the tries it was allowed, not those it made, and as the
response the last body that was read, which may be an earlier try's: `reports_iff` says when the two
agree.
-/

namespace Syncle.Http

/-! ## The statement -/

namespace Attempt

def status : Attempt → Option ℕ
  | answered res => some res.status
  | thrown _ => none

def error : Attempt → Text
  | answered res => if res.redirects then redirectError res else statusError res
  | thrown fault => describeFetchError fault

/-- What was read of its body; a redirect's is not. -/
@[grind =]
def response : Attempt → Option Text
  | answered res => if res.redirects then none else some ((readBodyCapped res).take responseLimit)
  | thrown _ => none

/-- A 2xx answer. -/
def succeeds : Attempt → Bool
  | answered res => res.ok
  | thrown _ => false

/-- What may pass: a retryable status, or no answer. -/
def passes : Attempt → Bool
  | answered res => res.retryable
  | thrown _ => true

end Attempt

/-- What a send should do, and report. -/
structure Reports (x : Exchange) (delivery : BridgeDeliveryConfig) (s : Sent) : Prop where
  atMost : s.made.length ≤ delivery.maxAttempts
  /-- nothing follows a success, a redirect or a status that is not retryable -/
  stops : ∀ i a, s.made[i]? = some a → i + 1 < s.made.length → a.passes
  /-- no try begins after the abort -/
  heeds : ∀ i < s.made.length, ¬ x.aborted (atStart (i + 1))
  throws : ∀ thrown, s.result = .error thrown → x.aborted s.endedAt
  succeeds : ∀ o, s.result = .ok o →
    (o.delivered ↔ ∃ last, s.made.getLast? = some last ∧ last.succeeds)
  /-- a failure is reported with the number of tries made, and as the last of them -/
  fails : ∀ o, s.result = .ok o → ¬ o.delivered → o.attempts = s.made.length ∧
    ∃ last, s.made.getLast? = some last ∧ o.httpStatus = last.status ∧ o.error = some last.error ∧
      o.responseBody = last.response

section Inputs

variable (x : Exchange) (delivery : BridgeDeliveryConfig)

/-- The try of that number passes, and its catch is not the end of the job. -/
def GoesOn (n : ℕ) : Prop :=
  (x.attempt n).passes ∧ ∀ fault, x.attempt n = .thrown fault → ¬ x.aborted (atCatch n)

/-- The loop comes to the try of that number: every one before it passed, and the job was not
aborted. -/
def Reached (n : ℕ) : Prop :=
  ∀ j, 1 ≤ j → j ≤ n → ¬ x.aborted (atStart j) ∧ (j < n → GoesOn x j)

/-- The try of that number is the one after which the delivery is given up: it will not pass, or it is
the last one that is allowed. -/
def GivesUp (n : ℕ) : Prop :=
  ¬ (x.attempt n).succeeds ∧ (¬ (x.attempt n).passes ∨ n = delivery.maxAttempts ∧ GoesOn x n)

/-- A delivery is given up only at the last try that is allowed, and after one with no response of its
own only if none before it had one. A body that has no JSON is met by an aborted job alone. -/
def Meets (body : Js.Value) : Prop :=
  (payloadOf body = none → x.aborted 0) ∧
    ((payloadOf body).isSome → ∀ n, 1 ≤ n → n ≤ delivery.maxAttempts → Reached x n →
      GivesUp x delivery n → n = delivery.maxAttempts ∧
        ((x.attempt n).response = none → ∀ j, 1 ≤ j → j < n → (x.attempt j).response = none))

end Inputs

/-! ## How a send ends -/

section Endings

variable {x : Exchange} {delivery : BridgeDeliveryConfig} {payload : Text}

theorem redirects_not_retryable {res : Response} (h : res.retryable) : ¬ res.redirects := by
  have mem : res.status ∈ retryableStatus := by simpa [Response.retryable] using h
  simp only [retryableStatus, List.mem_cons, List.not_mem_nil, or_false] at mem
  unfold Response.redirects
  rcases mem with is | is | is | is | is | is | is <;> simp [is]

theorem ok_not_retryable {res : Response} (h : res.ok) : ¬ res.retryable := by
  intro retryable
  have mem : res.status ∈ retryableStatus := by simpa [Response.retryable] using retryable
  simp only [retryableStatus, List.mem_cons, List.not_mem_nil, or_false] at mem
  unfold Response.ok at h
  rcases mem with is | is | is | is | is | is | is <;> simp [is] at h

theorem ok_not_redirects {res : Response} (h : res.ok) : ¬ res.redirects := by
  simp only [Response.ok, Response.redirects, decide_eq_true_eq] at h ⊢
  omega

theorem not_passes_of_succeeds {a : Attempt} (h : a.succeeds) : ¬ a.passes := by
  cases a with
  | answered res => exact ok_not_retryable h
  | thrown fault => cases h

/-- The tries up to that number. -/
def triesTo (x : Exchange) (n : ℕ) : List Attempt := (List.range n).map fun i => x.attempt (i + 1)

/-- The body that was read last. -/
@[grind =]
def heard (x : Exchange) : ℕ → Option Text
  | 0 => none
  | n + 1 => (x.attempt (n + 1)).response.or (heard x n)

/-- The loop's variables hold what the tries so far came to. -/
structure CarriedRight (x : Exchange) (n : ℕ) (c : Carried) : Prop where
  response : c.lastResponse = heard x n
  last : 1 ≤ n → c.lastStatus = (x.attempt n).status ∧ c.lastError = some (x.attempt n).error

/-- The ways a send ends after `n` tries, said of its inputs. -/
inductive Ending (x : Exchange) (delivery : BridgeDeliveryConfig) (payload : Text) (n : ℕ) :
    List Attempt → ℕ → Except Thrown DeliveryOutcome → Prop
  /-- the job is aborted before the next try -/
  | canceled (before : ∀ j, 1 ≤ j → j ≤ n → ¬ x.aborted (atStart j) ∧ GoesOn x j)
      (next : n < delivery.maxAttempts) (aborted : x.aborted (atStart (n + 1))) :
      Ending x delivery payload n (triesTo x n) (atStart (n + 1)) (.error .canceled)
  | thrown (within : 1 ≤ n ∧ n ≤ delivery.maxAttempts) (reached : Reached x n)
      (aborted : x.aborted (atCatch n)) {fault : FetchFault} (is : x.attempt n = .thrown fault) :
      Ending x delivery payload n (triesTo x n) (atCatch n) (.error (.fault fault))
  | delivered (within : 1 ≤ n ∧ n ≤ delivery.maxAttempts) (reached : Reached x n)
      (succeeds : (x.attempt n).succeeds) {endedAt : ℕ} {o : DeliveryOutcome} (tells : o.delivered = true) :
      Ending x delivery payload n (triesTo x n) endedAt (.ok o)
  | given (within : 1 ≤ n ∧ n ≤ delivery.maxAttempts) (reached : Reached x n)
      (up : GivesUp x delivery n) {endedAt : ℕ} {c : Carried} (right : CarriedRight x n c) :
      Ending x delivery payload n (triesTo x n) endedAt (.ok (givenUp x delivery payload c))

theorem length_triesTo (n : ℕ) : (triesTo x n).length = n := by
  simp [triesTo]

theorem getElem?_triesTo {n i : ℕ} (h : i < n) : (triesTo x n)[i]? = some (x.attempt (i + 1)) := by
  simp [triesTo, h]

theorem getLast?_triesTo {n : ℕ} (h : 1 ≤ n) : (triesTo x n).getLast? = some (x.attempt n) := by
  obtain ⟨m, rfl⟩ := Nat.exists_eq_add_of_le' h
  simp [triesTo, List.range_succ]

theorem triesTo_succ (n : ℕ) : triesTo x (n + 1) = triesTo x n ++ [x.attempt (n + 1)] := by
  simp [triesTo, List.range_succ]

theorem heard_succ_of_some {n : ℕ} {text : Text} (h : (x.attempt (n + 1)).response = some text) :
    heard x (n + 1) = some text := by
  rw [heard, h]
  rfl

theorem heard_succ_of_none {n : ℕ} (h : (x.attempt (n + 1)).response = none) :
    heard x (n + 1) = heard x n := by
  rw [heard, h]
  rfl

theorem heard_eq_none {n : ℕ} :
    heard x n = none ↔ ∀ j, 1 ≤ j → j ≤ n → (x.attempt j).response = none := by
  induction n with
  | zero =>
    refine ⟨fun _ j first last => ?_, fun _ => rfl⟩
    omega
  | succ n ih =>
    rw [heard, Option.or_eq_none_iff, ih]
    constructor
    · intro both j first last
      by_cases is : j = n + 1
      · rw [is]
        exact both.1
      · exact both.2 j first (by omega)
    · intro all
      exact ⟨all (n + 1) (by omega) (Nat.le_refl _), fun j first last => all j first (by omega)⟩

/-- What is reported as the response is the last try's, or there was no earlier one. -/
theorem heard_eq_response {n : ℕ} (h : 1 ≤ n) :
    heard x n = (x.attempt n).response ↔
      ((x.attempt n).response = none → ∀ j, 1 ≤ j → j < n → (x.attempt j).response = none) := by
  obtain ⟨m, rfl⟩ := Nat.exists_eq_add_of_le' h
  cases own : (x.attempt (m + 1)).response with
  | some text => simp [heard_succ_of_some own]
  | none =>
    rw [heard_succ_of_none own, heard_eq_none]
    simp only [forall_const, Nat.lt_succ_iff]

theorem reached_succ {n : ℕ} (before : ∀ j, 1 ≤ j → j ≤ n → ¬ x.aborted (atStart j) ∧ GoesOn x j)
    (start : ¬ x.aborted (atStart (n + 1))) : Reached x (n + 1) := by
  intro j first last
  by_cases is : j = n + 1
  · subst is
    exact ⟨start, fun less => absurd less (Nat.lt_irrefl _)⟩
  · obtain ⟨clear, goes⟩ := before j first (by omega)
    exact ⟨clear, fun _ => goes⟩

theorem Reached.before {n : ℕ} (reached : Reached x n) (goes : GoesOn x n) :
    ∀ j, 1 ≤ j → j ≤ n → ¬ x.aborted (atStart j) ∧ GoesOn x j := by
  intro j first last
  obtain ⟨clear, onward⟩ := reached j first last
  refine ⟨clear, ?_⟩
  by_cases is : j = n
  · rw [is]
    exact goes
  · exact onward (by omega)

/-! ### One turn of the loop -/

section Turn

variable {left attempt : ℕ} {c : Carried} {res : Response} {fault : FetchFault}

theorem attempts_canceled (aborted : x.aborted (atStart attempt)) :
    attempts x delivery payload (left + 1) attempt c =
      { endedAt := atStart attempt, result := .error .canceled } := by
  rw [attempts, if_pos aborted]

theorem attempts_redirect (start : ¬ x.aborted (atStart attempt)) (came : x.attempt attempt = .answered res)
    (redirects : res.redirects) :
    attempts x delivery payload (left + 1) attempt c =
      { made := [.answered res], endedAt := atCatch attempt
        result := .ok (givenUp x delivery payload
          { c with lastStatus := some res.status, lastError := some (redirectError res) }) } := by
  simp only [attempts, if_neg start, came, if_pos redirects]

theorem attempts_ok (start : ¬ x.aborted (atStart attempt)) (came : x.attempt attempt = .answered res)
    (ok : res.ok) :
    attempts x delivery payload (left + 1) attempt c =
      { made := [.answered res], endedAt := atCatch attempt
        result := .ok (succeeded x payload attempt res ((readBodyCapped res).take responseLimit)) } := by
  simp only [attempts, if_neg start, came, if_neg (ok_not_redirects ok), if_pos ok]

/-- What is carried on from an answer that is neither a redirect nor a success. -/
def afterStatus (res : Response) : Carried :=
  { lastStatus := some res.status, lastError := some (statusError res)
    lastResponse := some ((readBodyCapped res).take responseLimit) }

theorem attempts_retry (start : ¬ x.aborted (atStart attempt)) (came : x.attempt attempt = .answered res)
    (retryable : res.retryable) (again : attempt < delivery.maxAttempts) :
    attempts x delivery payload (left + 1) attempt c =
      (attempts x delivery payload left (attempt + 1) (afterStatus res)).after (.answered res)
        [backoff x delivery attempt res.retryAfter] := by
  simp only [attempts, if_neg start, came, if_neg (redirects_not_retryable retryable),
    if_neg (fun ok => ok_not_retryable ok retryable), if_pos (And.intro retryable again), afterStatus]

theorem attempts_status (start : ¬ x.aborted (atStart attempt)) (came : x.attempt attempt = .answered res)
    (redirects : ¬ res.redirects) (ok : ¬ res.ok)
    (last : ¬ (res.retryable ∧ attempt < delivery.maxAttempts)) :
    attempts x delivery payload (left + 1) attempt c =
      { made := [.answered res], endedAt := atCatch attempt
        result := .ok (givenUp x delivery payload (afterStatus res)) } := by
  simp only [attempts, if_neg start, came, if_neg redirects, if_neg ok, if_neg last, afterStatus]

theorem attempts_abort (start : ¬ x.aborted (atStart attempt)) (came : x.attempt attempt = .thrown fault)
    (aborted : x.aborted (atCatch attempt)) :
    attempts x delivery payload (left + 1) attempt c =
      { made := [.thrown fault], endedAt := atCatch attempt, result := .error (.fault fault) } := by
  simp only [attempts, if_neg start, came, if_pos aborted]

theorem attempts_thrown (start : ¬ x.aborted (atStart attempt)) (came : x.attempt attempt = .thrown fault)
    (goes : ¬ x.aborted (atCatch attempt)) :
    attempts x delivery payload (left + 1) attempt c =
      (attempts x delivery payload left (attempt + 1)
        { c with lastError := some (describeFetchError fault), lastStatus := none }).after
          (.thrown fault) (if attempt < delivery.maxAttempts then [backoff x delivery attempt none] else []) := by
  simp only [attempts, if_neg start, came, if_neg goes]

end Turn

section Came

variable {n : ℕ} {c : Carried} {res : Response} {fault : FetchFault}

/-- …after an answer that is no redirect, whose body was read. -/
theorem carriedRight_status (came : x.attempt (n + 1) = .answered res) (redirects : ¬ res.redirects) :
    CarriedRight x (n + 1) (afterStatus res) where
  response := by
    rw [heard, came, Attempt.response, if_neg redirects]
    rfl
  last _ := by
    rw [came, Attempt.status, Attempt.error, if_neg redirects]
    exact ⟨rfl, rfl⟩

theorem CarriedRight.redirect (right : CarriedRight x n c) (came : x.attempt (n + 1) = .answered res)
    (redirects : res.redirects) :
    CarriedRight x (n + 1)
      { c with lastStatus := some res.status, lastError := some (redirectError res) } where
  response := by
    rw [heard, came, Attempt.response, if_pos redirects]
    exact right.response
  last _ := by
    rw [came, Attempt.status, Attempt.error, if_pos redirects]
    exact ⟨rfl, rfl⟩

theorem CarriedRight.thrown (right : CarriedRight x n c) (came : x.attempt (n + 1) = .thrown fault) :
    CarriedRight x (n + 1)
      { c with lastError := some (describeFetchError fault), lastStatus := none } where
  response := by
    rw [heard, came, Attempt.response]
    exact right.response
  last _ := by
    rw [came, Attempt.status, Attempt.error]
    exact ⟨rfl, rfl⟩

theorem goesOn_of_retryable (came : x.attempt n = .answered res) (retryable : res.retryable) :
    GoesOn x n := by
  refine ⟨by rw [came]; exact retryable, fun fault is => ?_⟩
  rw [came] at is
  cases is

theorem goesOn_of_thrown (came : x.attempt n = .thrown fault) (goes : ¬ x.aborted (atCatch n)) :
    GoesOn x n :=
  ⟨by rw [came]; rfl, fun _ _ => goes⟩

/-- What passes is no success: the last of the tries that are allowed gives up. -/
theorem givesUp_of_goesOn (goes : GoesOn x n) (last : n = delivery.maxAttempts) :
    GivesUp x delivery n :=
  ⟨fun succeeds => not_passes_of_succeeds succeeds goes.1, .inr ⟨last, goes⟩⟩

end Came

variable (payload) in
/-- **The loop ends in one of four ways**, from any try on. -/
theorem ending_of_attempts (left n : ℕ) (c : Carried) (count : n + left = delivery.maxAttempts)
    (before : ∀ j, 1 ≤ j → j ≤ n → ¬ x.aborted (atStart j) ∧ GoesOn x j) (right : CarriedRight x n c) :
    let s := attempts x delivery payload left (n + 1) c
    ∃ m, Ending x delivery payload m (triesTo x n ++ s.made) s.endedAt s.result := by
  induction left generalizing n c with
  | zero =>
    have once := delivery.once
    obtain ⟨clear, goes⟩ := before n (by omega) (Nat.le_refl n)
    have reached : Reached x n := by
      intro j least most
      obtain ⟨clear, goes⟩ := before j least most
      exact ⟨clear, fun _ => goes⟩
    refine ⟨n, ?_⟩
    rw [attempts, List.append_nil]
    exact .given (by omega) reached (givesUp_of_goesOn goes (by omega)) right
  | succ left ih =>
    have within : 1 ≤ n + 1 ∧ n + 1 ≤ delivery.maxAttempts := by omega
    by_cases start : x.aborted (atStart (n + 1))
    · refine ⟨n, ?_⟩
      rw [attempts_canceled start, List.append_nil]
      exact .canceled before (by omega) start
    have reached := reached_succ before start
    have tries : ∀ {a}, x.attempt (n + 1) = a → triesTo x n ++ [a] = triesTo x (n + 1) := by
      intro a came
      rw [triesTo_succ, came]
    -- a turn after which the loop goes on
    have onward : ∀ {a c' waits}, x.attempt (n + 1) = a → GoesOn x (n + 1) →
        CarriedRight x (n + 1) c' →
        ∃ m, Ending x delivery payload m
          (triesTo x n ++ ((attempts x delivery payload left (n + 1 + 1) c').after a waits).made)
          ((attempts x delivery payload left (n + 1 + 1) c').after a waits).endedAt
          ((attempts x delivery payload left (n + 1 + 1) c').after a waits).result := by
      intro a c' waits came goes right'
      obtain ⟨m, ending⟩ := ih (n + 1) c' (by omega) (reached.before goes) right'
      refine ⟨m, ?_⟩
      rw [← tries came, List.append_assoc] at ending
      exact ending
    cases came : x.attempt (n + 1) with
    | answered res =>
      by_cases redirects : res.redirects
      · refine ⟨n + 1, ?_⟩
        rw [attempts_redirect start came redirects, tries came]
        refine .given within reached ⟨?_, .inl ?_⟩ (right.redirect came redirects)
        · rw [came]
          exact fun ok => ok_not_redirects ok redirects
        · rw [came]
          exact fun passes => redirects_not_retryable passes redirects
      by_cases ok : res.ok
      · refine ⟨n + 1, ?_⟩
        rw [attempts_ok start came ok, tries came]
        exact .delivered within reached (by rw [came]; exact ok) rfl
      by_cases retryable : res.retryable
      · have goes := goesOn_of_retryable came retryable
        by_cases again : n + 1 < delivery.maxAttempts
        · rw [attempts_retry start came retryable again]
          exact onward came goes (carriedRight_status came redirects)
        · refine ⟨n + 1, ?_⟩
          rw [attempts_status start came redirects ok (fun both => again both.2), tries came]
          exact .given within reached (givesUp_of_goesOn goes (by omega))
            (carriedRight_status came redirects)
      · refine ⟨n + 1, ?_⟩
        rw [attempts_status start came redirects ok (fun both => retryable both.1), tries came]
        refine .given within reached ⟨?_, .inl ?_⟩ (carriedRight_status came redirects)
        · rw [came]
          exact ok
        · rw [came]
          exact retryable
    | thrown fault =>
      by_cases aborted : x.aborted (atCatch (n + 1))
      · refine ⟨n + 1, ?_⟩
        rw [attempts_abort start came aborted, tries came]
        exact .thrown within reached aborted came
      · rw [attempts_thrown start came aborted]
        exact onward came (goesOn_of_thrown came aborted) (right.thrown came)

variable (x delivery) in
theorem ending_of_send {body : Js.Value} {json : Js.Json} (is : payloadOf body = some json) :
    ∃ n, Ending x delivery (x.spelled json) n (send x delivery body).made
      (send x delivery body).endedAt (send x delivery body).result := by
  have start : CarriedRight x 0 {} := ⟨rfl, fun first => absurd first (by decide)⟩
  obtain ⟨n, ending⟩ := ending_of_attempts (x.spelled json) delivery.maxAttempts 0 {}
    (Nat.zero_add _) (fun j first last => by omega) start
  refine ⟨n, ?_⟩
  rw [send, is]
  exact ending

end Endings

/-! ## When it reports what happened -/

section Iff

variable {x : Exchange} {delivery : BridgeDeliveryConfig} {payload : Text} {n n' : ℕ} {s : Sent}

/-- A try after which the loop went on did not give up. -/
theorem not_givesUp_of_goesOn (goes : GoesOn x n) (less : n < delivery.maxAttempts) :
    ¬ GivesUp x delivery n := by
  intro up
  rcases up.2 with stuck | last
  · exact stuck goes.1
  · exact Nat.ne_of_lt less last.1

/-- The tries that were made: none after one that does not pass, none after the abort. -/
theorem reports_of_tries (made : s.made = triesTo x n) (within : n ≤ delivery.maxAttempts)
    (passed : ∀ j, 1 ≤ j → j ≤ n → ¬ x.aborted (atStart j) ∧ (j < n → GoesOn x j))
    (throws : ∀ thrown, s.result = .error thrown → x.aborted s.endedAt)
    (succeeds : ∀ o, s.result = .ok o →
      (o.delivered ↔ ∃ last, s.made.getLast? = some last ∧ last.succeeds))
    (fails : ∀ o, s.result = .ok o → ¬ o.delivered → o.attempts = s.made.length ∧
      ∃ last, s.made.getLast? = some last ∧ o.httpStatus = last.status ∧ o.error = some last.error ∧
        o.responseBody = last.response) : Reports x delivery s where
  atMost := by
    rw [made, length_triesTo]
    exact within
  stops i a here next := by
    rw [made, length_triesTo] at next
    rw [made, getElem?_triesTo (by omega)] at here
    obtain rfl := Option.some.inj here
    exact ((passed (i + 1) (by omega) (by omega)).2 (by omega)).1
  heeds i less := by
    rw [made, length_triesTo] at less
    exact (passed (i + 1) (by omega) (by omega)).1
  throws := throws
  succeeds := succeeds
  fails := fails

theorem reports_of_throw {thrown : Thrown} (made : s.made = triesTo x n)
    (within : n ≤ delivery.maxAttempts)
    (passed : ∀ j, 1 ≤ j → j ≤ n → ¬ x.aborted (atStart j) ∧ (j < n → GoesOn x j))
    (result : s.result = .error thrown) (aborted : x.aborted s.endedAt) : Reports x delivery s := by
  apply reports_of_tries made within passed (fun _ _ => aborted)
  · intro o is
    rw [result] at is
    cases is
  · intro o is
    rw [result] at is
    cases is

/-- **A delivery that was given up** is reported right if every try that was allowed was made, and the
response is the last one's. -/
theorem reports_of_given_iff {c : Carried} (made : s.made = triesTo x n)
    (within : 1 ≤ n ∧ n ≤ delivery.maxAttempts) (reached : Reached x n) (up : GivesUp x delivery n)
    (right : CarriedRight x n c) (result : s.result = .ok (givenUp x delivery payload c)) :
    Reports x delivery s ↔ n = delivery.maxAttempts ∧ heard x n = (x.attempt n).response := by
  obtain ⟨status, error⟩ := right.last within.1
  constructor
  · intro reports
    obtain ⟨attempts, last, is, _, _, response⟩ := reports.fails _ result (fun no => by cases no)
    rw [made, length_triesTo] at attempts
    rw [made, getLast?_triesTo within.1] at is
    obtain rfl := Option.some.inj is
    exact ⟨attempts.symm, right.response.symm.trans response⟩
  · intro both
    apply reports_of_tries made within.2 reached
    · intro thrown is
      rw [result] at is
      cases is
    · intro o is
      rw [result] at is
      obtain rfl := Except.ok.inj is
      rw [made, getLast?_triesTo within.1]
      constructor
      · intro no
        cases no
      · rintro ⟨last, same, succeeds⟩
        obtain rfl := Option.some.inj same
        exact absurd succeeds up.1
    · intro o is _
      rw [result] at is
      obtain rfl := Except.ok.inj is
      rw [made, length_triesTo, getLast?_triesTo within.1]
      refine ⟨both.1.symm, x.attempt n, rfl, status, ?_, ?_⟩
      · rw [givenUp, error]
        rfl
      · exact right.response.trans both.2

/-- For every body, all settings, whatever each try comes to and whenever the job is aborted. -/
theorem reports_iff (x : Exchange) (delivery : BridgeDeliveryConfig) (body : Js.Value) :
    Reports x delivery (send x delivery body) ↔ Meets x delivery body := by
  cases is : payloadOf body with
  | none =>
    have sends : send x delivery body = { endedAt := 0, result := .error .notSerialisable } := by
      rw [send, is]
    rw [sends]
    constructor
    · intro reports
      refine ⟨fun _ => reports.throws _ rfl, fun some_ => ?_⟩
      rw [is] at some_
      cases some_
    · intro meets
      exact reports_of_throw (n := 0) rfl (Nat.zero_le _) (fun j first last => by omega) rfl
        (meets.1 is)
  | some json =>
    have allowed : Meets x delivery body ↔ ∀ n, 1 ≤ n → n ≤ delivery.maxAttempts → Reached x n →
        GivesUp x delivery n → n = delivery.maxAttempts ∧
          ((x.attempt n).response = none → ∀ j, 1 ≤ j → j < n → (x.attempt j).response = none) := by
      rw [Meets, is]
      simp
    rw [allowed]
    obtain ⟨n, ending⟩ := ending_of_send x delivery is
    generalize send x delivery body = s at ending
    obtain ⟨made, waits, endedAt, result⟩ := s
    cases ending with
    | canceled before next aborted =>
      have passed : ∀ j, 1 ≤ j → j ≤ n → ¬ x.aborted (atStart j) ∧ (j < n → GoesOn x j) :=
        fun j first last => ⟨(before j first last).1, fun _ => (before j first last).2⟩
      refine iff_of_true (reports_of_throw rfl (by omega) passed rfl aborted) ?_
      intro n' first _ reached up
      by_cases earlier : n' ≤ n
      · exact absurd up (not_givesUp_of_goesOn (before n' first earlier).2 (by omega))
      · exact absurd aborted (reached (n + 1) (by omega) (by omega)).1
    | thrown within reached aborted came =>
      refine iff_of_true (reports_of_throw rfl within.2 reached rfl aborted) ?_
      intro n' first _ reached' up
      rcases Nat.lt_trichotomy n' n with before | rfl | after
      · exact absurd up (not_givesUp_of_goesOn ((reached n' first (by omega)).2 before) (by omega))
      · rcases up.2 with stuck | last
        · rw [came] at stuck
          exact absurd rfl stuck
        · exact absurd aborted (last.2.2 _ came)
      · exact absurd aborted (((reached' n within.1 (by omega)).2 after).2 _ came)
    | delivered within reached succeeds tells =>
      refine iff_of_true (reports_of_tries rfl within.2 reached ?_ ?_ ?_) ?_
      · intro thrown no
        cases no
      · intro o same
        obtain rfl := Except.ok.inj same
        exact ⟨fun _ => ⟨_, getLast?_triesTo within.1, succeeds⟩, fun _ => tells⟩
      · intro o same failed
        obtain rfl := Except.ok.inj same
        exact absurd tells failed
      · intro n' first _ reached' up
        rcases Nat.lt_trichotomy n' n with before | rfl | after
        · exact absurd up (not_givesUp_of_goesOn ((reached n' first (by omega)).2 before) (by omega))
        · exact absurd succeeds up.1
        · exact absurd ((reached' n within.1 (by omega)).2 after).1 (not_passes_of_succeeds succeeds)
    | given within reached up right =>
      rw [reports_of_given_iff rfl within reached up right rfl, heard_eq_response within.1]
      constructor
      · intro both n' first most reached' up'
        rcases Nat.lt_trichotomy n' n with before | rfl | after
        · exact absurd up' (not_givesUp_of_goesOn ((reached n' first (by omega)).2 before) (by omega))
        · exact both
        · have goes := (reached' n within.1 (by omega)).2 after
          exact absurd up (not_givesUp_of_goesOn goes (by omega))
      · intro all
        exact all n within.1 within.2 reached up

end Iff

namespace MovedAway

/-- The destination is busy at the first try, and has moved at the second. -/
def away : Exchange where
  attempt n :=
    .answered (if n = 1 then { status := 503, chunks := [units "busy"] } else { status := 301 })
  spelled _ := units "null"
  numberOf _ := none

/-- **Three tries are reported where two were made**, and the busy server's body with the redirect's
status. -/
theorem away_misreported : ¬ Reports away {} (send away {} .null) := by
  intro reports
  obtain ⟨attempts, _⟩ := reports.fails _ rfl (by decide)
  exact absurd attempts (by decide)

end MovedAway

end Syncle.Http
