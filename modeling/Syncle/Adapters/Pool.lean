import Syncle.Adapters.Transaction

/-!
# The adapter pool (`adapter-pool.service.ts`, `read-only-adapter.ts`)

One adapter for each connection and database is kept open between requests. A request reads the
connection's row, and then looks for an adapter made from it; where there is none it joins an open
that is in progress, or opens one, behind an SSH tunnel where the connection asks for one. A sweep
closes what has not been handed out for a while, an edit evicts, and a tunnel that drops takes its
entry out of the pool, once the pool listens for it.

An open has a number, and so have its adapter and its tunnel. Edits are numbered too: a row says
which edit it is from, and which its ssh block is from. No code reads these.
-/

namespace Syncle.Adapters

open Lib

/-! ## Read-only connections -/

/-- The methods of a `DatabaseAdapter`. -/
inductive Method where
  | connect | ping | close | listDatabases | getSchema | browse | query | queryReadOnly
  | addColumns | insertRow | updateRow | deleteRow | upsertRow | ensureKeyIndex | insertRows
  | upsertRows | deleteRows | createDatabase | dropDatabase | createTable | dropTable
  | truncateTable | backup | restore | withTransaction
  deriving DecidableEq

/-- `WRITING_METHODS` -/
def WRITING_METHODS : List Method :=
  [.insertRow, .insertRows, .updateRow, .deleteRow, .deleteRows, .upsertRow, .upsertRows,
    .ensureKeyIndex, .createTable, .addColumns, .dropTable, .truncateTable, .createDatabase,
    .dropDatabase, .restore]

/-- What a property of an adapter is. -/
inductive Got where
  | undefined
  /-- `() => Promise.reject(readOnlyError(connectionName))` -/
  | refuses
  | target
  deriving DecidableEq

/-- A method of an adapter; `has` says whether the engine has it. -/
def plainGet (has : Bool) : Got := if has then .target else .undefined

/-- `asReadOnly` -/
def asReadOnly (method : Method) (has : Bool) : Got :=
  if method ∈ WRITING_METHODS then if has then .refuses else .undefined else plainGet has

/-! ## What is stored -/

structure Ssh where
  enabled : Bool
  /-- the jump host's key, where one is pinned -/
  hostKey : Option String
  deriving DecidableEq

/-- What an edit gives. `maxQueryRows` is 0 where the connection sets none. -/
structure ConnectionInput where
  engine : Engine
  database : String
  readOnly : Bool
  maxQueryRows : ℕ
  ssh : Option Ssh
  deriving DecidableEq

/-- `ConnectionConfig`, as far as the pool reads it. -/
structure ConnectionConfig extends ConnectionInput where
  updatedAt : ℕ
  edit : ℕ
  sshEdit : ℕ
  deriving DecidableEq

namespace ConnectionConfig

/-- Does `openFor` open a tunnel for it? -/
def tunnels (config : ConnectionConfig) : Bool :=
  config.ssh.any (·.enabled) && config.engine ≠ .sqlite

/-- `withQueryCap`: the rows a query may answer, by the connection or by the setting. -/
def queryCap (config : ConnectionConfig) (setting : ℕ) : ℕ :=
  if 0 < config.maxQueryRows then config.maxQueryRows else setting

/-- `revisionOf` -/
def revision (config : ConnectionConfig) (cap : ℕ) : ℕ × ℕ := (config.updatedAt, cap)

end ConnectionConfig

/-- What entries and opens are kept by: a connection and one of its databases. -/
structure Key where
  id : ℕ
  database : String
  deriving DecidableEq

/-! ## The pool -/

inductive Closer where
  | sweep | evict | reopen | drop | failed
  deriving DecidableEq

inductive AdapterState where
  | none
  | live
  | closed (by_ : Closer)
  deriving DecidableEq

inductive TunnelState where
  | none | live | closed | dropped
  deriving DecidableEq

/-- An open, and what it has opened. -/
structure Opened where
  key : Key
  config : ConnectionConfig
  cap : ℕ
  adapter : AdapterState
  tunnel : TunnelState
  /-- `tunnel?.onClose` has been called -/
  listens : Bool
  /-- how its promise is settled -/
  ended : Option Bool
  deriving DecidableEq

/-- `PoolEntry`; its adapter and tunnel are those of the open `opened`. -/
structure Entry where
  key : Key
  opened : ℕ
  revision : ℕ × ℕ
  lastUsedAt : ℕ
  deriving DecidableEq

/-- An edit that was saved. -/
structure Save where
  id : ℕ
  edit : ℕ
  readOnly : Bool
  deriving DecidableEq

/-- A `withAdapter`: its connection, and the last edit of it that had been saved when the call read
the row. -/
structure Call where
  id : ℕ
  begun : ℕ
  deriving DecidableEq

/-- A method that an operation has called, and that reached the adapter. -/
structure Reached where
  call : Call
  method : Method
  deriving DecidableEq

/-- `closing` are the tunnels of entries that are being closed. `saves` and `reached` are read by
no code. -/
structure Pool where
  rows : ℕ → Option ConnectionConfig
  entries : List Entry
  pending : List (Key × ℕ)
  opens : ℕ → Opened
  started : ℕ
  closing : List ℕ
  now : ℕ
  edits : ℕ
  saves : List Save
  reached : List Reached

def noConfig : ConnectionConfig :=
  { engine := .sqlite, database := "", readOnly := false, maxQueryRows := 0, ssh := none,
    updatedAt := 0, edit := 0, sshEdit := 0 }

def notOpened : Opened :=
  { key := { id := 0, database := "" }, config := noConfig, cap := 0, adapter := .none,
    tunnel := .none, listens := false, ended := none }

def Pool.empty : Pool :=
  { rows := fun _ => none, entries := [], pending := [], opens := fun _ => notOpened, started := 0,
    closing := [], now := 0, edits := 0, saves := [], reached := [] }

namespace Pool

/-- `this.entries.get(key)` -/
def entry (p : Pool) (key : Key) : Option Entry := p.entries.find? (·.key = key)

/-- `this.pending.get(key)` -/
def inFlight (p : Pool) (key : Key) : Option ℕ :=
  (p.pending.find? (·.1 = key)).map (·.2)

def setOpened (p : Pool) (o : ℕ) (opened : Opened) : Pool :=
  { p with opens := Function.update p.opens o opened }

/-- `tunnel.close()`; one that has dropped is torn down already. -/
def closeTunnel (p : Pool) (o : ℕ) : Pool :=
  p.setOpened o { p.opens o with
    tunnel := if (p.opens o).tunnel = .live then .closed else (p.opens o).tunnel }

/-- Entries leave the pool: each one's adapter is closed, and then its tunnel. -/
def closeEntries (p : Pool) (which : Entry → Bool) (by_ : Closer) : Pool :=
  let gone := (p.entries.filter which).map (·.opened)
  { p with
    entries := p.entries.filter (!which ·)
    opens := fun o => if o ∈ gone then { p.opens o with adapter := .closed by_ } else p.opens o
    closing := p.closing ++ gone.filter fun o => (p.opens o).tunnel = .live }

/-- The open's promise is settled, and `pending.delete(key)`. -/
def settle (p : Pool) (o : ℕ) (ok : Bool) : Pool :=
  { p.setOpened o { p.opens o with ended := some ok } with
    pending := p.pending.filter (·.1 ≠ (p.opens o).key) }

/-- The pool listens for the tunnel's end, and the entry is set. -/
def finish (p : Pool) (o : ℕ) : Pool :=
  let opened := p.opens o
  let entry : Entry :=
    { key := opened.key, opened := o, revision := opened.config.revision opened.cap,
      lastUsedAt := p.now }
  { p.setOpened o { opened with listens := true, ended := some true } with
    entries := p.entries.filter (·.key ≠ opened.key) ++ [entry]
    pending := p.pending.filter (·.1 ≠ opened.key) }

/-- An edit is saved, with a new `updatedAt`. -/
def save (p : Pool) (id : ℕ) (input : ConnectionInput) : Pool :=
  let edit := p.edits + 1
  { p with
    rows := Function.update p.rows id
      (some { input with updatedAt := edit, edit := edit, sshEdit := edit })
    edits := edit
    saves := p.saves ++ [{ id := id, edit := edit, readOnly := input.readOnly }] }

/-- `pinSshHostKey` writes the ssh block it has read, with the key, and the `updatedAt` it has
read. -/
def pin (p : Pool) (id : ℕ) (read : ConnectionConfig) (hostKey : String) : Pool :=
  { p with
    rows := Function.update p.rows id ((p.rows id).map fun row =>
      { row with
        ssh := read.ssh.map fun ssh => { ssh with hostKey := some hostKey }
        updatedAt := read.updatedAt
        sshEdit := read.sshEdit }) }

/-- An operation calls a method of the adapter it was handed. -/
def invoke (p : Pool) (o : ℕ) (call : Call) (method : Method) (has : Bool) : Pool :=
  let got := if (p.opens o).config.readOnly then asReadOnly method has else plainGet has
  if got = .target then { p with reached := p.reached ++ [{ call := call, method := method }] }
  else p

/-- A method reaches the adapter of a read-only connection only where it writes nothing. -/
theorem invoke_cases (p : Pool) (o : ℕ) (call : Call) (method : Method) (has : Bool) :
    p.invoke o call method has = p ∨
      (method ∈ WRITING_METHODS → (p.opens o).config.readOnly = false) ∧
        p.invoke o call method has =
          { p with reached := p.reached ++ [{ call := call, method := method }] } := by
  unfold Pool.invoke
  cases readOnly : (p.opens o).config.readOnly with
  | false =>
    simp only [Bool.false_eq_true, ↓reduceIte]
    split
    · exact .inr ⟨by simp, rfl⟩
    · exact .inl rfl
  | true =>
    simp only [↓reduceIte]
    split
    · next got =>
      refine .inr ⟨fun writes => ?_, rfl⟩
      rw [asReadOnly, if_pos writes] at got
      split at got <;> cases got
    · exact .inl rfl

/-- The last edit of a connection that was saved. -/
def lastSaved (p : Pool) (id : ℕ) : ℕ :=
  ((p.saves.filter (·.id = id)).map (·.edit)).getLastD 0

end Pool

/-! ## Calls -/

inductive PoolRequest where
  | withAdapter (id : ℕ) (database : String)
  | update (id : ℕ) (input : ConnectionInput)
  | evict (id : ℕ)
  deriving DecidableEq

/-- Where an open stands. -/
inductive Opening where
  | closingStale (stale : ℕ)
  | tunnelling
  | connecting (presented : Option String)
  | failing
  | pinReading (hostKey : String)
  | pinWriting (hostKey : String) (read : ConnectionConfig)
  | pinned
  deriving DecidableEq

/-- Where a call stands. `dropped` says of an adapter that was handed out from the pool whether its
tunnel was down. -/
inductive PoolTask where
  | resolving (id : ℕ) (database : String)
  | looking (call : Call) (database : String) (config : ConnectionConfig)
  | waiting (o : ℕ) (call : Call)
  | opening (o : ℕ) (call : Call) (at_ : Opening)
  | running (o : ℕ) (call : Call) (dropped : Bool)
  | saving (id : ℕ) (input : ConnectionInput)
  | toEvict (id : ℕ)
  | evicting (id : ℕ) (opening : List ℕ)
  deriving DecidableEq

inductive PoolAnswer where
  /-- an await is over, and whether it threw -/
  | did (ok : Bool)
  /-- with what `settings.snapshot().maxQueryRows` says -/
  | looks (setting : ℕ)
  /-- was the tunnel opened, what key did its host present, and is there a driver? -/
  | dialled (tunnel : Bool) (presented : Option String) (driver : Bool)
  | calls (method : Method) (has : Bool)
  | over
  deriving DecidableEq

namespace Pool

/-- A new open of a key: what is there is stale, and is closed first. -/
def start (p : Pool) (key : Key) (config : ConnectionConfig) (cap : ℕ) : Pool × Opening :=
  let opened : Opened :=
    { key := key, config := config, cap := cap, adapter := .none, tunnel := .none,
      listens := false, ended := none }
  let reopened := p.closeEntries (·.key = key) .reopen
  ({ reopened.setOpened p.started opened with
      started := p.started + 1, pending := p.pending ++ [(key, p.started)] },
    match p.entry key with
    | some stale => .closingStale stale.opened
    | none => .tunnelling)

/-- `${id}::${effectiveDb ?? ''}` -/
def keyOf (call : Call) (database : String) (config : ConnectionConfig) : Key :=
  { id := call.id, database := if database ≠ "" then database else config.database }

/-- An open begins with what is stale, or with its tunnel. -/
theorem opening_start (p : Pool) (key : Key) (config : ConnectionConfig) (cap : ℕ) :
    (p.start key config cap).2 = .tunnelling ∨
      ∃ stale, (p.start key config cap).2 = .closingStale stale := by
  unfold start
  cases p.entry key with
  | none => exact .inl rfl
  | some stale => exact .inr ⟨stale.opened, rfl⟩

/-- The entry of a key, where it was made from this configuration. -/
def match_ (p : Pool) (key : Key) (config : ConnectionConfig) (cap : ℕ) : Option Entry :=
  (p.entry key).filter (·.revision = config.revision cap)

/-- `acquire`, once the row is read. -/
def look (p : Pool) (call : Call) (database : String) (config : ConnectionConfig)
    (setting : ℕ) : Pool × PoolTask :=
  let key := keyOf call database config
  let cap := config.queryCap setting
  match p.match_ key config cap with
  | some existing =>
    let used := p.entries.map fun e => if e.key = key then { e with lastUsedAt := p.now } else e
    ({ p with entries := used },
      .running existing.opened call ((p.opens existing.opened).tunnel = .dropped))
  | none =>
    -- "join an in-flight open instead of racing it"
    match p.inFlight key with
    | some o => (p, .waiting o call)
    | none => ((p.start key config cap).1, .opening p.started call (p.start key config cap).2)

/-- The rest of an open, from one await to the next. -/
def open_ (p : Pool) (o : ℕ) (call : Call) (at_ : Opening) (answer : PoolAnswer) :
    Option (Pool × Option PoolTask) :=
  let opened := p.opens o
  match at_, answer with
  | .closingStale stale, .did _ =>
    if stale ∈ p.closing then none else some (p, some (.opening o call .tunnelling))
  | .tunnelling, .dialled tunnel presented driver =>
    let tunnels := opened.config.tunnels
    if tunnels && !tunnel then some (p.settle o false, none)
    else
      let dialled := { opened with tunnel := if tunnels then .live else .none }
      -- `createAdapter` stands outside of the `try`
      if driver then
        some (p.setOpened o { dialled with adapter := .live },
          some (.opening o call (.connecting (if tunnels then presented else none))))
      else some ((p.setOpened o dialled).settle o false, none)
  | .connecting presented, .did ok =>
    if ok then
      match presented with
      | some hostKey =>
        if (opened.config.ssh.bind (·.hostKey)).isNone then
          some (p, some (.opening o call (.pinReading hostKey)))
        else some (p.finish o, some (.running o call false))
      | none => some (p.finish o, some (.running o call false))
    else
      some (p.setOpened o { opened with adapter := .closed .failed },
        some (.opening o call .failing))
  | .failing, .did _ =>
    some ((p.closeTunnel o).settle o false, none)
  | .pinReading hostKey, .did ok =>
    match if ok then p.rows opened.key.id else none with
    | some row =>
      if row.ssh.any (·.hostKey.isNone) then
        some (p, some (.opening o call (.pinWriting hostKey row)))
      else some (p, some (.opening o call .pinned))
    | none => some (p, some (.opening o call .pinned))
  | .pinWriting hostKey read, .did ok =>
    some (if ok then p.pin opened.key.id read hostKey else p, some (.opening o call .pinned))
  | .pinned, .did _ => some (p.finish o, some (.running o call false))
  | _, _ => none

def resume (p : Pool) (task : PoolTask) (answer : PoolAnswer) : Option (Pool × Option PoolTask) :=
  match task, answer with
  | .resolving id database, .did ok =>
    let call : Call := { id := id, begun := p.lastSaved id }
    some (p, (if ok then p.rows id else none).map (.looking call database))
  | .looking call database config, .looks setting =>
    some ((p.look call database config setting).1, some (p.look call database config setting).2)
  | .waiting o call, .did _ =>
    (p.opens o).ended.map fun ok => (p, if ok then some (.running o call false) else none)
  | .opening o call at_, answer => p.open_ o call at_ answer
  | .running o call dropped, .calls method has =>
    some (p.invoke o call method has, some (.running o call dropped))
  | .running _ _ _, .over => some (p, none)
  | .saving id input, .did ok =>
    if ok && (p.rows id).isSome then some (p.save id input, some (.toEvict id)) else some (p, none)
  | .toEvict id, .did _ =>
    some (p, some (.evicting id ((p.pending.filter (·.1.id = id)).map (·.2))))
  | .evicting id opening, .did _ =>
    -- "settle in-flight opens first so their adapters can't escape the evict"
    if opening.all fun o => (p.opens o).ended.isSome then
      some (p.closeEntries (·.key.id = id) .evict, none)
    else none
  | _, _ => none

/-- What else happens. -/
inductive Happens where
  | tick (ms : ℕ)
  | sweep (poolIdleMs : ℕ)
  | drop (o : ℕ)
  /-- the tunnel of an entry that left the pool is closed -/
  | tunnelClosed (o : ℕ)
  | create (id : ℕ) (input : ConnectionInput)
  | delete (id : ℕ)
  deriving DecidableEq

/-- Has an entry not been handed out for longer than that? -/
def idle (p : Pool) (poolIdleMs : ℕ) (e : Entry) : Bool := poolIdleMs < p.now - e.lastUsedAt

def world (p : Pool) : Happens → Option Pool
  | .tick ms => some { p with now := p.now + ms }
  | .sweep poolIdleMs => some (p.closeEntries (p.idle poolIdleMs) .sweep)
  | .drop o =>
    if (p.opens o).tunnel = .live then
      let dropped := p.setOpened o { p.opens o with tunnel := .dropped }
      if (p.opens o).listens then
        some (dropped.closeEntries (fun e => e.key = (p.opens o).key && e.opened = o) .drop)
      else some dropped
    else none
  | .tunnelClosed o =>
    if o ∈ p.closing then
      some { p.closeTunnel o with closing := p.closing.filter (· ≠ o) }
    else none
  | .create id input => if (p.rows id).isNone then some (p.save id input) else none
  | .delete id => some { p with rows := Function.update p.rows id none }

end Pool

def poolSystem : TaskSystem Pool PoolTask PoolRequest PoolAnswer Pool.Happens where
  init
    | .withAdapter id database => .resolving id database
    | .update id input => .saving id input
    | .evict id => .toEvict id
  resume := Pool.resume
  world := Pool.world

/-- A connection, of which an edit may say that it is read-only or tunnelled. -/
def connection (readOnly : Bool) (ssh : Option Ssh) : ConnectionInput :=
  { engine := .postgres, database := "app", readOnly := readOnly, maxQueryRows := 0, ssh := ssh }

/-- A tunnel whose host's key is not pinned. -/
def unpinned : Ssh := { enabled := true, hostKey := none }

end Syncle.Adapters
