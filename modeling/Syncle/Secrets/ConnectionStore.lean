import Syncle.Js.RegExp
import Syncle.Secrets.Crypto

/-!
# Saved connections (`ConnectionStoreService`)

A connection's secrets are its password, its connection string, the secrets of its SSH tunnel and the
client key of its TLS section. They are encrypted one by one, those of the tunnel together; what is
public of the two sections is stored beside them, with an empty text where a secret is kept. Callers
get a view in which each secret is `********`, and send that back to keep what is stored.

Of one connection's row the times are left out.
-/

namespace Syncle.Secrets

open Lib Js

def REDACTED : String := "********"

def DEFAULT_WORKSPACE_ID : String := "00000000-0000-0000-0000-000000000001"

inductive SshSecretKey where
  | password | privateKey | passphrase
  deriving DecidableEq

def SSH_SECRET_KEYS : List SshSecretKey := [.password, .privateKey, .passphrase]

/-! ## What is sent and what is stored -/

/-- What is public of an SSH section. -/
structure SshPublic where
  enabled : Bool
  host : String
  port : Option ℕ
  username : String
  authMethod : String
  hostKey : Option String
  deriving DecidableEq

abbrev SshSecrets := SshSecretKey → Option String

structure SshTunnelConfig extends SshPublic where
  secret : SshSecrets

/-- What is public of a TLS section. -/
structure TlsPublic where
  mode : String
  ca : Option String
  cert : Option String
  servername : Option String
  deriving DecidableEq

structure TlsConfig extends TlsPublic where
  key : Option String

/-- The settings without a secret. -/
structure Details where
  name : String
  engine : String
  color : Option String
  environment : Option String
  host : Option String
  port : Option ℕ
  user : Option String
  database : Option String
  deriving DecidableEq

structure ConnectionInput (O : Type) where
  details : Details
  workspaceId : Option String
  readOnly : Option Bool
  password : Option String
  ssl : Option Bool
  connectionString : Option String
  options : Option O
  ssh : Option SshTunnelConfig
  tls : Option TlsConfig

structure ConnectionConfig (O : Type) extends ConnectionInput O where
  id : String

/-- `T`: the text of a JSON column -/
structure ConnectionRow (T : Type) where
  id : String
  workspaceId : String
  details : Details
  readOnly : Bool
  passwordEnc : Option Payload
  ssl : Bool
  connectionStringEnc : Option Payload
  optionsJson : Option T
  sshJson : Option T
  sshSecretsEnc : Option Payload
  tlsJson : Option T
  tlsSecretsEnc : Option Payload

/-! ## What the service uses -/

/-- `JSON`, of one kind of value. -/
structure Json (A T : Type) where
  stringify : A → T
  /-- none: it throws -/
  parse : T → Option A
  parse_stringify : ∀ a, parse (stringify a) = some a

/-- `CryptoService` -/
structure Vault where
  encrypt : Iv → String → Payload
  /-- none: it throws -/
  decrypt : Payload → Option String
  decrypt_encrypt : ∀ iv text, text ≠ "" → decrypt (encrypt iv text) = some text

/-- The vault of some keys. -/
def Vault.ofKeys {K : Type} [DecidableEq K] (gcm : Gcm K) (lawful : gcm.Lawful) (keys : Keys K) : Vault where
  encrypt := Secrets.encrypt gcm keys.current
  decrypt := Secrets.decrypt gcm keys
  decrypt_encrypt iv _ some_ := decrypt_encrypts lawful ⟨some_, iv, rfl⟩ keys.current_mem

structure ConnectionStoreService (O T : Type) where
  vault : Vault
  /-- `getDriver` -/
  hasDriver : String → Bool
  optionsJson : Json O T
  sshJson : Json SshTunnelConfig T
  tlsJson : Json TlsConfig T
  sshSecretsJson : Json SshSecrets String
  sshSecretsJson_ne : ∀ secrets, sshSecretsJson.stringify secrets ≠ ""

inductive StoreError where
  /-- a `BadRequestError` -/
  | badRequest (message : String)
  /-- a ciphertext that cannot be read -/
  | crypto
  deriving DecidableEq

/-- What counts as a text where the code asks whether there is one. -/
def truthy (text : Option String) : Option String := text.filter (· ≠ "")

/-! ## Splitting the secrets out -/

/-- An empty text where there is a secret, so "that its presence survives without its value". -/
def marker (secret : Option String) : Option String := secret.map fun _ => ""

def splitSsh : Option SshTunnelConfig → Option SshTunnelConfig × SshSecrets
  | none => (none, fun _ => none)
  | some ssh =>
    (some { ssh with secret := fun key => marker (truthy (ssh.secret key)) },
      fun key => truthy (ssh.secret key))

def TlsPublic.trimmed (tls : TlsPublic) : TlsPublic :=
  let filled (text : Option String) := text.filter fun text => text.toList.any fun c => !isSpace c.toNat
  { tls with ca := filled tls.ca, cert := filled tls.cert, servername := filled tls.servername }

def splitTls : Option TlsConfig → Option TlsConfig × Option String
  | none => (none, none)
  | some tls =>
    (some { tls.toTlsPublic.trimmed with key := marker (truthy tls.key) }, truthy tls.key)

namespace ConnectionStoreService

variable {O T : Type} (svc : ConnectionStoreService O T)

def encryptSshSecrets (iv : Iv) (secrets : SshSecrets) : Option Payload :=
  if SSH_SECRET_KEYS.any fun key => (secrets key).isSome then
    some (svc.vault.encrypt iv (svc.sshSecretsJson.stringify secrets))
  else none

def decryptSshSecrets : Option Payload → Option SshSecrets
  | none => some fun _ => none
  | some enc => (svc.vault.decrypt enc).bind svc.sshSecretsJson.parse

def sshFromRow (row : ConnectionRow T) (includeSecrets : Bool) : Option (Option SshTunnelConfig) :=
  match row.sshJson.bind svc.sshJson.parse with
  | none => some none
  | some ssh => do
    let secrets ← if includeSecrets then svc.decryptSshSecrets row.sshSecretsEnc else some fun _ => none
    return some { ssh with
      secret := fun key => (ssh.secret key).map fun _ =>
        if includeSecrets then (secrets key).getD "" else REDACTED }

def tlsFromRow (row : ConnectionRow T) (includeSecrets : Bool) : Option (Option TlsConfig) :=
  match row.tlsJson.bind svc.tlsJson.parse with
  | none => some none
  | some tls =>
    match tls.key with
    | none => some (some tls)
    | some _ =>
      if includeSecrets then
        match row.tlsSecretsEnc with
        | none => some (some { tls with key := some "" })
        | some enc => (svc.vault.decrypt enc).map fun key => some { tls with key := some key }
      else some (some { tls with key := some REDACTED })

def secretFromRow (enc : Option Payload) (includeSecrets : Bool) : Option (Option String) :=
  match enc with
  | none => some none
  | some enc => if includeSecrets then (svc.vault.decrypt enc).map some else some (some REDACTED)

/-- none: it throws -/
def toConfig (row : ConnectionRow T) (includeSecrets : Bool) : Option (ConnectionConfig O) := do
  let password ← svc.secretFromRow row.passwordEnc includeSecrets
  let connectionString ← svc.secretFromRow row.connectionStringEnc includeSecrets
  let ssh ← svc.sshFromRow row includeSecrets
  let tls ← svc.tlsFromRow row includeSecrets
  return {
    id := row.id
    details := row.details
    workspaceId := some row.workspaceId
    readOnly := if row.readOnly then some true else none
    password := password
    ssl := some row.ssl
    connectionString := connectionString
    options := row.optionsJson.bind svc.optionsJson.parse
    ssh := ssh
    tls := tls }

/-! ## Saving -/

/-- The ivs of a save's ciphertexts. -/
structure Ivs where
  password : Iv
  connectionString : Iv
  ssh : Iv
  tls : Iv

def assertDriver (engine : String) : Except StoreError Unit :=
  if svc.hasDriver engine then .ok ()
  else .error (.badRequest ("This build of Syncle has no driver for \"" ++ engine ++ "\"."))

/-- The old switch stays truthful for anything that still reads it. -/
def sslOf (input : ConnectionInput O) : Bool :=
  match input.tls with
  | some tls => tls.mode ≠ "disable"
  | none => input.ssl.getD false

def create (id : String) (ivs : Ivs) (input : ConnectionInput O) : Except StoreError (ConnectionRow T) := do
  svc.assertDriver input.details.engine
  let (ssh, sshSecrets) := splitSsh input.ssh
  let (tls, tlsKey) := splitTls input.tls
  return {
    id := id
    workspaceId := input.workspaceId.getD DEFAULT_WORKSPACE_ID
    details := input.details
    readOnly := input.readOnly = some true
    passwordEnc := (truthy input.password).map (svc.vault.encrypt ivs.password)
    ssl := sslOf input
    connectionStringEnc := (truthy input.connectionString).map (svc.vault.encrypt ivs.connectionString)
    optionsJson := input.options.map svc.optionsJson.stringify
    sshJson := ssh.map svc.sshJson.stringify
    sshSecretsEnc := svc.encryptSshSecrets ivs.ssh sshSecrets
    tlsJson := tls.map svc.tlsJson.stringify
    tlsSecretsEnc := tlsKey.map (svc.vault.encrypt ivs.tls) }

/-- Keep what is stored where the client sends the redaction sentinel. -/
def keepOrEncrypt (iv : Iv) (existing : Option Payload) (given : Option String) : Option Payload :=
  if given = some REDACTED then existing else (truthy given).map (svc.vault.encrypt iv)

/-- The secrets of the tunnel are read where the sentinel asks for one of them. -/
def storedFor (existing : ConnectionRow T) (sshInput : SshSecrets) : Except StoreError SshSecrets :=
  if SSH_SECRET_KEYS.any fun key => sshInput key = some REDACTED then
    match svc.decryptSshSecrets existing.sshSecretsEnc with
    | none => .error .crypto
    | some stored => .ok stored
  else .ok fun _ => none

def updated (ivs : Ivs) (existing : ConnectionRow T) (input : ConnectionInput O) (stored : SshSecrets) :
    ConnectionRow T :=
  let (ssh, sshInput) := splitSsh input.ssh
  let sshSecrets : SshSecrets := fun key =>
    truthy (if sshInput key = some REDACTED then stored key else sshInput key)
  -- the presence marker is dropped when the sentinel matched nothing stored
  let ssh := ssh.map fun ssh =>
    { ssh with secret := fun key => if (sshSecrets key).isSome then ssh.secret key else none }
  let (tls, tlsKeyInput) := splitTls input.tls
  let tlsSecretsEnc := svc.keepOrEncrypt ivs.tls existing.tlsSecretsEnc tlsKeyInput
  let tls := tls.map fun tls => { tls with key := if tlsSecretsEnc.isSome then tls.key else none }
  { existing with
    details := input.details
    readOnly := input.readOnly = some true
    passwordEnc := svc.keepOrEncrypt ivs.password existing.passwordEnc input.password
    ssl := sslOf input
    connectionStringEnc :=
      svc.keepOrEncrypt ivs.connectionString existing.connectionStringEnc input.connectionString
    optionsJson := input.options.map svc.optionsJson.stringify
    sshJson := ssh.map svc.sshJson.stringify
    sshSecretsEnc := svc.encryptSshSecrets ivs.ssh sshSecrets
    tlsJson := tls.map svc.tlsJson.stringify
    tlsSecretsEnc := tlsSecretsEnc }

def update (ivs : Ivs) (existing : ConnectionRow T) (input : ConnectionInput O) :
    Except StoreError (ConnectionRow T) := do
  svc.assertDriver input.details.engine
  let stored ← svc.storedFor existing (splitSsh input.ssh).2
  return svc.updated ivs existing input stored

/-- `pinSshHostKey`: a fingerprint that is pinned is never overwritten. -/
def pinSshHostKey (row : ConnectionRow T) (fingerprint : String) : ConnectionRow T :=
  match row.sshJson.bind svc.sshJson.parse with
  | none => row
  | some ssh =>
    if (ssh.hostKey.getD "").toList.any fun c => !isSpace c.toNat then row
    else { row with sshJson := some (svc.sshJson.stringify { ssh with hostKey := some fingerprint }) }

end ConnectionStoreService

end Syncle.Secrets
