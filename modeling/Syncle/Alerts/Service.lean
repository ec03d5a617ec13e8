import Syncle.Lib.OrderedMap
import Syncle.Lib.Run

/-!
# Alerts (`alerts.service.ts`)

An alert goes to every channel that subscribes to its kind. Throttled per channel, kind and bridge:
within the window of the last one it is held back and counted, and the next one to go out says how many
were. A channel that does not take it is tried once more; how it went is recorded with the channel.

Dispatches overlap at their awaits. What a channel answers, what the store answers and what the clock
shows is in the event.
-/

namespace Syncle.Alerts

open Syncle.Lib

/-! ## Events and channels -/

/-- `alertEventTypeSchema`, and the test message. -/
inductive AlertEventType where
  | bridgeFailed | bridgePositionLost | bridgeDeadLetters | sourceHold | bridgeSchemaDrift | test
  deriving DecidableEq

def AlertEventType.text : AlertEventType → List Char
  | bridgeFailed => "bridge.failed".toList
  | bridgePositionLost => "bridge.position_lost".toList
  | bridgeDeadLetters => "bridge.dead_letters".toList
  | sourceHold => "source.hold".toList
  | bridgeSchemaDrift => "bridge.schema_drift".toList
  | test => "test".toList

inductive Severity where
  | warning | critical
  deriving DecidableEq

/-- `AlertInput` -/
structure AlertInput where
  type : AlertEventType
  severity : Severity
  title : String
  message : String
  bridgeId : Option String := none
  bridgeName : Option String := none
  jobId : Option String := none
  deriving DecidableEq

/-- `AlertEvent` -/
structure AlertEvent extends AlertInput where
  /-- `at` -/
  emittedAt : String
  /-- how many more of the same were not sent since the last one -/
  suppressed : Option ℕ := none
  deriving DecidableEq

/-- A channel, as far as a dispatch reads it. Its id is a UUID. -/
structure StoredChannel where
  id : List Char
  name : String
  uuid : '|' ∉ id
  deriving DecidableEq

/-- `${channel.id}|${event.type}|${event.bridgeId ?? ''}` -/
def keyOf (channel : StoredChannel) (event : AlertEvent) : List Char :=
  channel.id ++ '|' :: (event.type.text ++ '|' :: (event.bridgeId.getD "").toList)

/-- `AlertTestResult` -/
structure SendResult where
  ok : Bool
  detail : String
  deriving DecidableEq

/-! ## Throttling -/

/-- When the last one went out, and how many were held back since. -/
structure Sent where
  sentAt : Int
  suppressed : ℕ
  deriving DecidableEq

abbrev SentMap := OrderedMap (List Char) Sent

section Throttle

variable (window : ℕ)

/-- `last && now - last.at < alertThrottleSeconds * 1000`: the last one, if this one is held back. -/
def throttledBy (sent : SentMap) (key : List Char) (now : Int) : Option Sent :=
  (sent.get? key).filter fun last => now - last.sentAt < window

/-- The message as it goes out. -/
def outgoingOf (sent : SentMap) (key : List Char) (event : AlertEvent) : AlertEvent :=
  match sent.get? key with
  | some last => if last.suppressed = 0 then event else { event with suppressed := some last.suppressed }
  | none => event

/-- More keys than this, and what is long past its window is forgotten. -/
def sizeLimit : ℕ := 5000

def isPast (horizon : Int) (sent : SentMap) (key : List Char) : Bool :=
  (sent.get? key).any fun v => v.sentAt < horizon

def forgetPast (sent : SentMap) (now : Int) : SentMap :=
  if sizeLimit < sent.size then sent.filter fun key => !isPast (now - window) sent key else sent

end Throttle

/-! ## What became of an alert -/

/-- What became of an alert for a channel. -/
inductive Fate where
  | underWay
  /-- it was taken, as this message -/
  | sent (message : AlertEvent)
  /-- it was not taken; did the channel's record of that succeed? -/
  | failed (recorded : Bool)
  /-- held back, and counted for its key -/
  | heldBack
  /-- held back, and counted in the message of that alert -/
  | countedIn (place : ℕ)
  deriving DecidableEq

/-- An alert that was dispatched to a channel. -/
structure Handled where
  channel : StoredChannel
  event : AlertEvent
  fate : Fate
  deriving DecidableEq

def Handled.key (h : Handled) : List Char := keyOf h.channel h.event

/-- Where a send stands. -/
inductive SendPhase where
  | trying | pausing | retrying
  | recording (result : SendResult)
  deriving DecidableEq

/-- One channel's part of a dispatch. -/
structure Sending where
  dispatch : ℕ
  channel : StoredChannel
  outgoing : AlertEvent
  phase : SendPhase
  /-- its place among the alerts handled -/
  place : ℕ
  deriving DecidableEq

/-- The service: its map, what is under way, and in `handled` what became of each alert for each
channel, which the code keeps no list of. -/
structure AlertsService where
  sent : SentMap := .empty
  /-- dispatches that wait for their subscribers -/
  subscribing : ℕ → Option AlertEvent := fun _ => none
  /-- …and for their sends: `Promise.all` -/
  waiting : List ℕ := []
  sends : List Sending := []
  handled : List Handled := []

/-- What is held back for a key goes into the message of the alert at `place`. -/
def count (key : List Char) (place : ℕ) (h : Handled) : Handled :=
  if h.key = key ∧ h.fate = .heldBack then { h with fate := .countedIn place } else h

def settle (fate : Fate) (h : Handled) : Handled := { h with fate := fate }

/-! ## Steps -/

inductive AlertStep where
  | emit (dispatch : ℕ) (input : AlertInput) (emittedAt : String)
  /-- `subscribers` answers, or throws; with each channel what the clock shows at its turn -/
  | subscribers (dispatch : ℕ) (channels : Option (List (StoredChannel × Int)))
  /-- `sendAlert` resolves -/
  | answered (place : ℕ) (result : SendResult)
  | paused (place : ℕ)
  /-- `recordOutcome` is over; the store's refusal is swallowed -/
  | recorded (place : ℕ) (kept : Bool)
  /-- all of a dispatch's sends are over -/
  | settled (dispatch : ℕ) (now : Int)
  deriving DecidableEq

/-- The part of a dispatch before its first await, for one channel. -/
def notify (window : ℕ) (dispatch : ℕ) (event : AlertEvent) (s : AlertsService)
    (channel : StoredChannel) (now : Int) : AlertsService :=
  let key := keyOf channel event
  match throttledBy window s.sent key now with
  | some last =>
    { s with
      sent := s.sent.set key { last with suppressed := last.suppressed + 1 }
      handled := s.handled ++ [{ channel, event, fate := .heldBack }] }
  | none =>
    { s with
      sent := s.sent.set key { sentAt := now, suppressed := 0 }
      sends := s.sends ++
        [{ dispatch, channel, outgoing := outgoingOf s.sent key event, phase := .trying,
           place := s.handled.length }]
      handled := s.handled.map (count key s.handled.length) ++ [{ channel, event, fate := .underWay }] }

def AlertsService.sending (s : AlertsService) (place : ℕ) : Option Sending :=
  s.sends.find? fun x => x.place = place

/-- A send comes to another phase. -/
def AlertsService.goOn (s : AlertsService) (place : ℕ) (phase : SendPhase) : AlertsService :=
  { s with sends := s.sends.map fun x => if x.place = place then { x with phase := phase } else x }

/-- A send is over. -/
def AlertsService.finish (s : AlertsService) (place : ℕ) (fate : Fate) : AlertsService :=
  { s with
    sends := s.sends.filter fun x => x.place ≠ place
    handled := s.handled.modify place (settle fate) }

def step (window : ℕ) (s : AlertsService) : AlertStep → Option AlertsService
  | .emit dispatch input emittedAt =>
    if (s.subscribing dispatch).isSome ∨ dispatch ∈ s.waiting then none
    else if input.type = .test then some s
    else
      let event := { input with emittedAt }
      some { s with subscribing := fun d => if d = dispatch then some event else s.subscribing d }
  | .subscribers dispatch channels =>
    (s.subscribing dispatch).map fun event =>
      let s := { s with subscribing := fun d => if d = dispatch then none else s.subscribing d }
      match channels with
      -- the dispatch throws, and `emit` logs it
      | none => s
      | some channels =>
        channels.foldl (fun s c => notify window dispatch event s c.1 c.2)
          { s with waiting := s.waiting ++ [dispatch] }
  | .answered place result =>
    (s.sending place).bind fun x =>
      match x.phase with
      | .trying => some (s.goOn place (if result.ok then .recording result else .pausing))
      | .retrying => some (s.goOn place (.recording result))
      | _ => none
  | .paused place =>
    (s.sending place).bind fun x =>
      if x.phase = .pausing then some (s.goOn place .retrying) else none
  | .recorded place kept =>
    (s.sending place).bind fun x =>
      match x.phase with
      | .recording result =>
        some (s.finish place (if result.ok then .sent x.outgoing else .failed kept))
      | _ => none
  | .settled dispatch now =>
    if dispatch ∈ s.waiting ∧ ∀ x ∈ s.sends, x.dispatch ≠ dispatch then
      some { s with
        waiting := s.waiting.filter (· ≠ dispatch)
        sent := forgetPast window s.sent now }
    else none

end Syncle.Alerts
