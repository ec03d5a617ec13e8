import Syncle.Builder.Config

/-!
# Importing bridges (`bridge-transfer.service.ts`, `bridge-store.service.ts`)

A document of bridges comes in. Each connection it names is matched with one of this instance, each
bridge is prepared (its connections, a name that is free, its schedule off, itself off where a
credential is wanted), and then the store creates them, one after the other. The store looks at the
connections again, and the database has its say.

A column of the database that holds JSON holds the value.
-/

namespace Syncle.Transfer

open Lib
open Builder (Auth HttpDestination DatabaseTarget Destination TransformConfig DeliveryConfig Trigger)

/-! ## Bridges and connections -/

/-- `bridgeSourceSchema` -/
inductive Source where
  | table (source : Builder.TableSource)
  | query (connectionId : String) (database : Option String) (statement : String)

/-- `bridgeInputSchema` -/
structure BridgeInput where
  name : String
  workspaceId : Option String := none
  source : Source
  destination : Destination
  transform : TransformConfig
  delivery : DeliveryConfig
  trigger : Trigger
  enabled : Bool

/-- A row of `bridges`. -/
structure BridgeRow where
  id : String
  name : String
  workspaceId : String
  connectionId : String
  source : Source
  /-- with its secret blanked out -/
  destination : Destination
  authEnc : Option String
  transform : TransformConfig
  delivery : DeliveryConfig
  trigger : Trigger
  enabled : Bool

/-- A row of `connections`. -/
structure ConnectionRow where
  id : String
  name : String
  engine : String
  workspaceId : String
  readOnly : Bool
  deriving DecidableEq

def Source.connectionId : Source → String
  | table source => source.connectionId
  | query connectionId _ _ => connectionId

def Source.at (source : Source) (connectionId : String) : Source :=
  match source with
  | table source => .table { source with connectionId }
  | query _ database statement => .query connectionId database statement

def connectionIdsOf (bridge : BridgeInput) : List String :=
  let ids :=
    match bridge.destination with
    | .database targets => targets.map (·.connectionId)
    | .http _ => []
  (bridge.source.connectionId :: ids).eraseDups

/-! ## Preparing -/

def credentialMissing : Destination → Bool
  | .database _ => false
  | .http endpoint =>
    match endpoint.auth with
    | .none => false
    | .bearer token => token = ""
    | .header _ value => value = ""

abbrev ConnectionMap := OrderedMap String String

/-- `map.get(id) ?? id` -/
def ConnectionMap.to (map : ConnectionMap) (id : String) : String := (map.get? id).getD id

def remapDestination (map : ConnectionMap) : Destination → Destination
  | .database targets =>
    .database (targets.map fun t => { t with connectionId := map.to t.connectionId })
  | .http endpoint => .http endpoint

def remap (map : ConnectionMap) (bridge : BridgeInput) : BridgeInput :=
  { bridge with
    source := bridge.source.at (map.to bridge.source.connectionId)
    destination := remapDestination map bridge.destination }

/-- The trigger, and was its schedule on? -/
def withScheduleOff : Trigger → Trigger × Bool
  | .replay (some schedule) =>
    if schedule.enabled then (.replay (some { schedule with enabled := false }), true)
    else (.replay (some schedule), false)
  | trigger => (trigger, false)

/-- The name at the `n`-th turn of the loop. -/
def importedName (name : String) : ℕ → String
  | 0 => name
  | 1 => name ++ " (imported)"
  | n => name ++ " (imported " ++ toString n ++ ")"

/-- The loop: `fuel` names are tried before the one that is taken untried. -/
def freeName (taken : List String) (name : String) : (fuel n : ℕ) → String
  | 0, n => importedName name n
  | fuel + 1, n =>
    if importedName name n ∈ taken then freeName taken name fuel (n + 1) else importedName name n

def credentialWarning (name : String) : String :=
  "\"" ++ name ++ "\" posts to an endpoint that wants a credential, and credentials are not exported: " ++
    "it was imported switched off. Set the credential, then enable it."

def scheduleWarning (name : String) : Trigger → String
  | .replay (some schedule) =>
    "\"" ++ name ++ "\" runs on a schedule (" ++ schedule.cron ++ "): it was imported with the schedule " ++
      "switched off. Look it over, then turn the schedule on."
  | _ => "\"" ++ name ++ "\" runs on a schedule (): it was imported with the schedule switched off. " ++
      "Look it over, then turn the schedule on."

/-- An entry as it will be created. -/
def prepareOne (map : ConnectionMap) (workspaceId name : String) (original : BridgeInput) : BridgeInput :=
  let bridge := remap map original
  { bridge with
    trigger := (withScheduleOff bridge.trigger).1
    name
    workspaceId := some workspaceId
    enabled := if credentialMissing bridge.destination then false else bridge.enabled }

def warningsOf (map : ConnectionMap) (name : String) (original : BridgeInput) : List String :=
  let bridge := remap map original
  (if credentialMissing bridge.destination then [credentialWarning name] else []) ++
    if (withScheduleOff bridge.trigger).2 then [scheduleWarning name bridge.trigger] else []

/-- `document.bridges.map`, with the names that are taken: the entries, and what there is to say. -/
def prepare (map : ConnectionMap) (workspaceId : String) :
    List String → List BridgeInput → List BridgeInput × List String
  | _, [] => ([], [])
  | taken, original :: rest =>
    let name := freeName taken original.name taken.length 0
    let (prepared, warnings) := prepare map workspaceId (name :: taken) rest
    (prepareOne map workspaceId name original :: prepared, warningsOf map name original ++ warnings)

/-! ## The import -/

structure ConnectionDescription where
  name : String
  engine : String
  deriving DecidableEq

/-- `bridgeImportSchema` -/
structure BridgeImport where
  connections : List (String × ConnectionDescription)
  bridges : List BridgeInput
  connectionMap : List (String × String) := []
  workspaceId : Option String := none

structure UnresolvedConnection where
  id : String
  name : String
  engine : String
  candidates : List (String × String)
  deriving DecidableEq

/-- Why an import is refused, and what a create throws. -/
inductive Refusal where
  | badRequest (message : String)
  | unresolved (connections : List UnresolvedConnection)
  /-- the database's own -/
  | database (message : String)
  deriving DecidableEq

/-- What the import meets. -/
structure World where
  /-- the connections, as they are resolved -/
  connections : List ConnectionRow
  /-- …and when the create of that entry looks at them; it may fail -/
  atCreate : ℕ → Except String (List ConnectionRow)
  /-- the database's refusal of that entry's row -/
  insert : ℕ → Option String
  randomUUID : ℕ → String
  encrypt : ℕ → String → String

inductive Counterpart where
  | found (id : String)
  | unresolved (connection : UnresolvedConnection)
  deriving DecidableEq

section Resolve

variable (w : World) (dto : BridgeImport) (workspaceId : String)

/-- Which connection of this instance it is. -/
def counterpart (id : String) : Except Refusal Counterpart :=
  let locals : List ConnectionRow := w.connections.filter fun c => c.workspaceId = workspaceId
  match (dto.connectionMap.lookup id).filter (· ≠ "") with
  | some said =>
    if w.connections.any fun c => c.id = said then .ok (.found said)
    else .error (.badRequest ("The connection \"" ++ said ++ "\" the import maps to does not exist."))
  | none =>
    if w.connections.any fun c => c.id = id then .ok (.found id)
    else
      let described := dto.connections.lookup id
      let sameName : List ConnectionRow :=
        match described with
        | some d => locals.filter fun c => c.name = d.name ∧ c.engine = d.engine
        | none => []
      match sameName with
      | [c] => .ok (.found c.id)
      | _ =>
        .ok (.unresolved
          { id, name := (described.map (·.name)).getD id
            engine := (described.map (·.engine)).getD "unknown"
            candidates :=
              (locals.filter fun c => described.all fun d => c.engine = d.engine).map
                fun c => (c.id, c.name) })

def resolveAll : List String → Except Refusal (ConnectionMap × List UnresolvedConnection)
  | [] => .ok (.empty, [])
  | id :: rest => do
    let it ← counterpart w dto workspaceId id
    let (map, unresolved) ← resolveAll rest
    match it with
    | .found own => return (map.set id own, unresolved)
    | .unresolved connection => return (map, connection :: unresolved)

def resolveConnections : Except Refusal (ConnectionMap × List UnresolvedConnection) :=
  resolveAll w dto workspaceId (dto.bridges.flatMap connectionIdsOf).eraseDups

end Resolve

/-! ## The store -/

/-- The sanitized destination, and its secret. -/
def splitSecret : Destination → Destination × Option String
  | .database targets => (.database targets, none)
  | .http endpoint =>
    match endpoint.auth with
    | .none => (.http endpoint, none)
    | .bearer token => (.http { endpoint with auth := .bearer "" }, some token)
    | .header name value => (.http { endpoint with auth := .header name "" }, some value)

def quoted (connections : List ConnectionRow) : String :=
  String.intercalate ", " (connections.map fun c => "\"" ++ c.name ++ "\"")

def assertTargetsWritable (connections : Except String (List ConnectionRow)) :
    Destination → Except Refusal Unit
  | .http _ => .ok ()
  | .database targets =>
    match connections with
    | .error message => .error (.database message)
    | .ok connections =>
      let ids := targets.map (·.connectionId)
      let readOnly := connections.filter fun c => c.id ∈ ids ∧ c.readOnly
      let asKeys := (targets.filter fun t => t.redis.isSome).map (·.connectionId)
      let wrong := connections.filter fun c => c.id ∈ asKeys ∧ c.engine ≠ "redis"
      if readOnly ≠ [] then
        .error (.badRequest (quoted readOnly ++
          (if readOnly.length = 1 then " is a read-only connection" else " are read-only connections") ++
          ", and a bridge writes to its destination. " ++
          "Pick another connection, or untick \"Read-only\" on it."))
      else if wrong ≠ [] then
        .error (.badRequest (quoted wrong ++ " is not a Redis connection: a key template, a key type " ++
          "and an expiry only apply to a target in Redis."))
      else .ok ()

def defaultWorkspaceId : String := "00000000-0000-0000-0000-000000000001"

section Create

variable (w : World)

/-- The row of the entry at that place. -/
def rowOf (i : ℕ) (input : BridgeInput) : BridgeRow :=
  let (sanitized, secret) := splitSecret input.destination
  { id := w.randomUUID i
    name := input.name
    workspaceId := input.workspaceId.getD defaultWorkspaceId
    connectionId := input.source.connectionId
    source := input.source
    destination := sanitized
    authEnc := (secret.filter (· ≠ "")).map (w.encrypt i)
    transform := input.transform
    delivery := input.delivery
    trigger := input.trigger
    enabled := input.enabled }

/-- `BridgeStoreService.create`, of the entry at that place. -/
def create (i : ℕ) (input : BridgeInput) : Except Refusal BridgeRow := do
  assertTargetsWritable (w.atCreate i) input.destination
  match w.insert i with
  | some message => throw (.database message)
  | none => return rowOf w i input

/-- The rows created from the place `i` on, and the refusal that ended it. -/
def createAll : ℕ → List BridgeInput → List BridgeRow × Option Refusal
  | _, [] => ([], none)
  | i, input :: rest =>
    match create w i input with
    | .error refusal => ([], some refusal)
    | .ok row =>
      let (rows, refusal) := createAll (i + 1) rest
      (row :: rows, refusal)

/-- `BridgeImportResult` -/
structure ImportResult where
  created : List (String × String)
  warnings : List String
  deriving DecidableEq

/-- The import, and the bridges that are stored after it. -/
def importBridges (dto : BridgeImport) (bridges : List BridgeRow) :
    Except Refusal ImportResult × List BridgeRow :=
  let workspaceId := dto.workspaceId.getD defaultWorkspaceId
  match resolveConnections w dto workspaceId with
  | .error refusal => (.error refusal, bridges)
  | .ok (map, unresolved) =>
    if unresolved ≠ [] then (.error (.unresolved unresolved), bridges)
    else
      let taken := (bridges.filter fun b => b.workspaceId = workspaceId).map (·.name)
      let (prepared, warnings) := prepare map workspaceId taken dto.bridges
      let (rows, refusal) := createAll w 0 prepared
      match refusal with
      | some refusal => (.error refusal, bridges ++ rows)
      | none => (.ok { created := rows.map fun row => (row.id, row.name), warnings }, bridges ++ rows)

end Create

end Syncle.Transfer
