import Mathlib.Algebra.Order.Field.Rat
import Mathlib.Data.Rat.Cast.Order
import Syncle.Js.RegExp
import Syncle.Js.Value
import Syncle.Lib.OrderedMap
import Syncle.Lib.Unicode

/-!
# HTTP deliveries (`delivery.service.ts`)

One request, tried again after what may pass: a status that says so, a network failure, a timeout, a
refusal by the destination guard. What the last try came to is carried in three variables from one
attempt to the next.

What a try comes to, when the job is aborted and how long it all takes are the world's. Texts are their
UTF-16 code units. How a JSON value is spelled is a parameter: nothing here reads the text.
-/

namespace Syncle.Http

open Syncle.Lib

abbrev Text := List ℕ

def units (s : String) : Text := s.toList.flatMap utf16

/-- `text.trim()` -/
def trim (text : Text) : Text :=
  ((text.dropWhile Js.isSpace).reverse.dropWhile Js.isSpace).reverse

/-! ## Settings -/

inductive HttpAuth where
  | none
  | bearer (token : String)
  | header (name value : String)
  deriving DecidableEq

structure HttpDestination where
  url : String
  method : String
  headers : OrderedMap String String
  auth : HttpAuth
  idempotency : Bool

/-- `bridgeDeliverySchema`, as far as a send reads it. -/
structure BridgeDeliveryConfig where
  maxAttempts : ℕ := 3
  backoffMs : ℕ := 500
  backoffMaxMs : ℕ := 30000
  once : 1 ≤ maxAttempts := by decide
  atMostTen : maxAttempts ≤ 10 := by decide

def buildHeaders (dest : HttpDestination) (idempotencyKey : Option String) : OrderedMap String String :=
  let headers := (OrderedMap.empty.set "content-type" "application/json").setAll dest.headers.entries
  let headers :=
    match dest.auth with
    | .bearer token => if token = "" then headers else headers.set "authorization" ("Bearer " ++ token)
    | .header name value => if value = "" then headers else headers.set name value
    | .none => headers
  match idempotencyKey with
  | some key => if key ≠ "" ∧ dest.idempotency then headers.set "idempotency-key" key else headers
  | none => headers

/-! ## What a try comes to -/

/-- `error.cause` -/
structure FetchCause where
  code : Text := []
  address : Text := []
  port : ℕ := 0
  message : Text := []
  deriving DecidableEq

/-- What the guard or `fetch` throws. -/
inductive FetchFault where
  | timeout
  | error (message : Text) (cause : Option FetchCause)
  /-- …and what is no `Error` -/
  | other (text : Text)
  deriving DecidableEq

def describeFetchError : FetchFault → Text
  | .timeout => units "Request timed out"
  | .other text => text
  | .error message none => message
  | .error message (some cause) =>
    let place :=
      if cause.address = [] then []
      else units " " ++ cause.address ++
        if cause.port = 0 then [] else units ":" ++ units (toString cause.port)
    let detail := if cause.code = [] then cause.message else cause.code ++ place
    if detail = [] then message else message ++ units " (" ++ trim detail ++ units ")"

/-- A response; `chunks` are what its body's reader hands over, decoded, before it ends or fails. -/
structure Response where
  status : ℕ
  statusText : Text := []
  retryAfter : Option Text := none
  chunks : List Text := []
  deriving DecidableEq

inductive Attempt where
  | answered (res : Response)
  | thrown (fault : FetchFault)
  deriving DecidableEq

def retryableStatus : List ℕ := [408, 425, 429, 500, 502, 503, 504]

def responseLimit : ℕ := 16384

def bodyReadLimit : ℕ := 65536

def Response.redirects (res : Response) : Bool := 300 ≤ res.status ∧ res.status < 400

/-- `res.ok` -/
@[grind =]
def Response.ok (res : Response) : Bool := 200 ≤ res.status ∧ res.status < 300

@[grind =]
def Response.retryable (res : Response) : Bool := res.status ∈ retryableStatus

/-- The reader's loop, with what it has read. -/
def readChunks (limit : ℕ) : List Text → Text → Text
  | [], out => out
  | chunk :: rest, out => if out.length < limit then readChunks limit rest (out ++ chunk) else out

def readBodyCapped (res : Response) : Text :=
  (readChunks bodyReadLimit res.chunks []).take bodyReadLimit

def redirectError (res : Response) : Text :=
  units "HTTP " ++ units (toString res.status) ++
    units ": redirects are not followed — point the destination at the final URL"

def statusError (res : Response) : Text :=
  trim (units "HTTP " ++ units (toString res.status) ++ units " " ++ res.statusText)

/-! ## Sending -/

/-- What the world does during a send. -/
structure Exchange where
  /-- what the try of that number comes to, if it is made -/
  attempt : ℕ → Attempt
  /-- The moment of the job's abort. The signal is looked at at the start of a try (`atStart`) and where
  one has thrown (`atCatch`); moment 0 is before the send. -/
  abort : Option ℕ := none
  /-- `Math.random()` at the wait after that try -/
  random : ℕ → ℚ := fun _ => 0
  durationMs : ℕ := 0
  /-- the text of a JSON value -/
  spelled : Js.Json → Text
  /-- `Number(text)` of a header, where it is finite -/
  numberOf : Text → Option ℚ

def atStart (attempt : ℕ) : ℕ := 2 * attempt - 1

def atCatch (attempt : ℕ) : ℕ := 2 * attempt

def Exchange.aborted (x : Exchange) (moment : ℕ) : Bool := x.abort.any (· ≤ moment)

/-- `DeliveryOutcome`, as far as a send sets it. -/
structure DeliveryOutcome where
  delivered : Bool
  httpStatus : Option ℕ
  attempts : ℕ
  error : Option Text
  requestBody : Text
  responseBody : Option Text
  durationMs : ℕ
  bodyTruncated : Bool
  deriving DecidableEq

/-- What a send throws. -/
inductive Thrown where
  /-- `JSON.stringify` throws, or makes no text -/
  | notSerialisable
  /-- `DOMException('Job canceled')` -/
  | canceled
  | fault (fault : FetchFault)
  deriving DecidableEq

/-- How a send went: the tries made, the waits between them, when it was over and what it came to. -/
structure Sent where
  made : List Attempt := []
  waits : List ℚ := []
  endedAt : ℕ
  result : Except Thrown DeliveryOutcome

/-- What the loop carries. -/
structure Carried where
  lastError : Option Text := none
  lastStatus : Option ℕ := none
  lastResponse : Option Text := none
  deriving DecidableEq

/-- `payload`: none where `JSON.stringify(body ?? null)` throws, or is `undefined`. -/
def payloadOf : Js.Value → Option Js.Json
  | .undefined => some .null
  | .unchanged => none
  | .jsonable .undefined => none
  | .jsonable .unchanged => none
  | v => Js.stringify v

section Sending

variable (x : Exchange) (delivery : BridgeDeliveryConfig)

/-- `backoff`: how long it waits. -/
@[grind =]
def backoff (attempt : ℕ) (retryAfter : Option Text) : ℚ :=
  let delay := min (delivery.backoffMaxMs : ℚ) (delivery.backoffMs * 2 ^ (attempt - 1))
  let retryAfterMs := (retryAfter.filter (· ≠ [])).bind fun text => (x.numberOf text).map (· * 1000)
  let delay :=
    match retryAfterMs with
    | some ms => max delay (min ms delivery.backoffMaxMs)
    | none => delay
  delay + delay * (1 / 5) * x.random attempt

/-- The report of a delivery that was given up. -/
def givenUp (payload : Text) (c : Carried) : DeliveryOutcome :=
  { delivered := false
    httpStatus := c.lastStatus
    attempts := delivery.maxAttempts
    error := some (c.lastError.getD (units "Delivery failed"))
    requestBody := payload.take responseLimit
    responseBody := c.lastResponse
    durationMs := x.durationMs
    bodyTruncated := responseLimit < payload.length }

def succeeded (payload : Text) (attempt : ℕ) (res : Response) (body : Text) : DeliveryOutcome :=
  { delivered := true
    httpStatus := some res.status
    attempts := attempt
    error := none
    requestBody := payload.take responseLimit
    responseBody := if body = [] then none else some body
    durationMs := x.durationMs
    bodyTruncated := responseLimit < payload.length }

/-- A try was made, a wait was waited, and then the rest. -/
def Sent.after (s : Sent) (made : Attempt) (waits : List ℚ) : Sent :=
  { s with made := made :: s.made, waits := waits ++ s.waits }

/-- The loop, from the try of that number on; `left` tries are left. -/
@[grind =]
def attempts (payload : Text) : (left attempt : ℕ) → Carried → Sent
  | 0, attempt, c => { endedAt := atCatch (attempt - 1), result := .ok (givenUp x delivery payload c) }
  | left + 1, attempt, c =>
    if x.aborted (atStart attempt) then { endedAt := atStart attempt, result := .error .canceled }
    else
      match x.attempt attempt with
      | .answered res =>
        if res.redirects then
          { made := [.answered res], endedAt := atCatch attempt
            result := .ok (givenUp x delivery payload
              { c with lastStatus := some res.status, lastError := some (redirectError res) }) }
        else
          let body := (readBodyCapped res).take responseLimit
          if res.ok then
            { made := [.answered res], endedAt := atCatch attempt
              result := .ok (succeeded x payload attempt res body) }
          else
            let c : Carried :=
              { lastStatus := some res.status, lastError := some (statusError res)
                lastResponse := some body }
            if res.retryable ∧ attempt < delivery.maxAttempts then
              (attempts payload left (attempt + 1) c).after (.answered res)
                [backoff x delivery attempt res.retryAfter]
            else
              { made := [.answered res], endedAt := atCatch attempt
                result := .ok (givenUp x delivery payload c) }
      | .thrown fault =>
        if x.aborted (atCatch attempt) then
          { made := [.thrown fault], endedAt := atCatch attempt, result := .error (.fault fault) }
        else
          (attempts payload left (attempt + 1)
              { c with lastError := some (describeFetchError fault), lastStatus := none }).after
            (.thrown fault)
            (if attempt < delivery.maxAttempts then [backoff x delivery attempt none] else [])

def send (body : Js.Value) : Sent :=
  match payloadOf body with
  | none => { endedAt := 0, result := .error .notSerialisable }
  | some json => attempts x delivery (x.spelled json) delivery.maxAttempts 1 {}

end Sending

end Syncle.Http
