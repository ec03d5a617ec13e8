import Syncle.Secrets.ConnectionStore

/-!
# A connection's secrets outlive its saves

What a row stands for: its public settings, and a text or none in the place of each secret. A save
settles each secret by what the form says of it alone; a view is made of the public settings and of
which secrets there are.
-/

namespace Syncle.Secrets

open Lib Js

/-- Where a connection holds a secret. -/
inductive Slot where
  | password
  | connectionString
  | ssh (key : SshSecretKey)
  | tlsKey
  deriving DecidableEq

variable {O T : Type}

/-- What a form says of a secret. -/
def ConnectionInput.given (input : ConnectionInput O) : Slot → Option String
  | .password => input.password
  | .connectionString => input.connectionString
  | .ssh key => input.ssh.bind (·.secret key)
  | .tlsKey => input.tls.bind TlsConfig.key

/-! ## What a row stands for -/

/-- The settings of a connection but for its secrets. -/
structure Settings (O : Type) where
  details : Details
  readOnly : Bool
  ssl : Bool
  options : Option O
  ssh : Option SshPublic
  tls : Option TlsPublic

def ConnectionInput.settings (input : ConnectionInput O) : Settings O where
  details := input.details
  readOnly := input.readOnly = some true
  ssl := ConnectionStoreService.sslOf input
  options := input.options
  ssh := input.ssh.map SshTunnelConfig.toSshPublic
  tls := input.tls.map fun tls => tls.toTlsPublic.trimmed

/-- The connection with `shown` in the places of its secrets. -/
def Settings.config (settings : Settings O) (id workspaceId : String) (shown : Slot → Option String) :
    ConnectionConfig O where
  id := id
  details := settings.details
  workspaceId := some workspaceId
  readOnly := if settings.readOnly then some true else none
  password := shown .password
  ssl := some settings.ssl
  connectionString := shown .connectionString
  options := settings.options
  ssh := settings.ssh.map fun ssh => { ssh with secret := fun key => shown (.ssh key) }
  tls := settings.tls.map fun tls => { tls with key := shown .tlsKey }

/-- The client is shown which secrets there are. -/
def redacted (secret : Slot → Option String) (slot : Slot) : Option String :=
  (secret slot).map fun _ => REDACTED

def Vault.Holds (vault : Vault) (enc : Option Payload) : Option String → Prop
  | none => enc = none
  | some text => text ≠ "" ∧ ∃ payload, enc = some payload ∧ vault.decrypt payload = some text

structure Represents (svc : ConnectionStoreService O T) (row : ConnectionRow T) (settings : Settings O)
    (secret : Slot → Option String) : Prop where
  details : row.details = settings.details
  readOnly : row.readOnly = settings.readOnly
  ssl : row.ssl = settings.ssl
  options : row.optionsJson = settings.options.map svc.optionsJson.stringify
  password : svc.vault.Holds row.passwordEnc (secret .password)
  connectionString : svc.vault.Holds row.connectionStringEnc (secret .connectionString)
  ssh : row.sshJson = settings.ssh.map fun ssh =>
    svc.sshJson.stringify { ssh with secret := fun key => marker (secret (.ssh key)) }
  sshSecrets : svc.decryptSshSecrets row.sshSecretsEnc = some fun key => secret (.ssh key)
  sshSome : ∀ key, secret (.ssh key) ≠ some ""
  sshNone : settings.ssh = none → ∀ key, secret (.ssh key) = none
  tls : row.tlsJson = settings.tls.map fun tls =>
    svc.tlsJson.stringify { tls with key := marker (secret .tlsKey) }
  tlsKey : svc.vault.Holds row.tlsSecretsEnc (secret .tlsKey)
  tlsNone : settings.tls = none → secret .tlsKey = none

/-! ## Reading a row -/

section

variable {svc : ConnectionStoreService O T} {row : ConnectionRow T} {settings : Settings O}
  {secret : Slot → Option String}

theorem secretFromRow_eq {enc : Option Payload} {text : Option String} (holds : svc.vault.Holds enc text)
    (includeSecrets : Bool) :
    svc.secretFromRow enc includeSecrets =
      some (if includeSecrets then text else text.map fun _ => REDACTED) := by
  cases text with
  | none =>
    have is : enc = none := holds
    rw [is]
    cases includeSecrets <;> rfl
  | some text =>
    obtain ⟨-, payload, rfl, opens⟩ := holds
    cases includeSecrets with
    | false => rfl
    | true => simp [ConnectionStoreService.secretFromRow, opens]

theorem toConfig_eq (represents : Represents svc row settings secret) (includeSecrets : Bool) :
    svc.toConfig row includeSecrets = some (settings.config row.id row.workspaceId
      (if includeSecrets then secret else redacted secret)) := by
  have ssh : svc.sshFromRow row includeSecrets = some (settings.ssh.map fun ssh =>
      { ssh with secret := fun key =>
          (if includeSecrets then secret else redacted secret) (.ssh key) }) := by
    rw [ConnectionStoreService.sshFromRow, represents.ssh]
    cases settings.ssh with
    | none => rfl
    | some ssh =>
      simp only [Option.map_some, Option.bind_some, svc.sshJson.parse_stringify, represents.sshSecrets]
      cases includeSecrets with
      | false =>
        simp [marker, redacted, Function.comp_def]
      | true =>
        simp only [if_true, Option.bind_eq_bind, Option.bind_some, Option.pure_def, Option.some.injEq,
          SshTunnelConfig.mk.injEq, true_and]
        funext key
        cases secret (.ssh key) <;> rfl
  have tls : svc.tlsFromRow row includeSecrets = some (settings.tls.map fun tls =>
      { tls with key := (if includeSecrets then secret else redacted secret) .tlsKey }) := by
    have holds := represents.tlsKey
    rw [ConnectionStoreService.tlsFromRow, represents.tls]
    cases settings.tls with
    | none => rfl
    | some tls =>
      simp only [Option.map_some, Option.bind_some, svc.tlsJson.parse_stringify]
      cases key : secret .tlsKey with
      | none => cases includeSecrets <;> simp [marker, redacted, key]
      | some text =>
        rw [key] at holds
        obtain ⟨-, payload, enc, opens⟩ := holds
        cases includeSecrets <;> simp [marker, redacted, key, enc, opens]
  have options : row.optionsJson.bind svc.optionsJson.parse = settings.options := by
    rw [represents.options]
    cases settings.options with
    | none => rfl
    | some options => exact svc.optionsJson.parse_stringify options
  rw [ConnectionStoreService.toConfig, secretFromRow_eq represents.password,
    secretFromRow_eq represents.connectionString, ssh, tls, options, represents.details,
    represents.readOnly, represents.ssl]
  cases includeSecrets <;> rfl

end

/-! ## One save -/

/-- What becomes of a secret, by what the form says of it. -/
def settle (before given : Option String) : Option String :=
  if given = some REDACTED then before else truthy given

section

variable {svc : ConnectionStoreService O T}

theorem truthy_ne {text : Option String} {s : String} (some_ : truthy text = some s) : s ≠ "" := by
  have kept := (Option.filter_eq_some_iff.mp some_).2
  simpa using kept

theorem truthy_truthy (text : Option String) : truthy (truthy text) = truthy text := by
  rw [truthy, truthy, Option.filter_filter]
  simp

theorem truthy_of_ne {text : Option String} (some_ : text ≠ some "") : truthy text = text := by
  cases text with
  | none => rfl
  | some s =>
    have ne : s ≠ "" := fun is => some_ (congrArg some is)
    simp [truthy, ne]

theorem holds_encrypt (iv : Iv) (text : Option String) :
    svc.vault.Holds ((truthy text).map (svc.vault.encrypt iv)) (truthy text) := by
  cases some_ : truthy text with
  | none => rfl
  | some s => exact ⟨truthy_ne some_, _, rfl, svc.vault.decrypt_encrypt iv s (truthy_ne some_)⟩

theorem holds_keepOrEncrypt (iv : Iv) {existing : Option Payload} {before : Option String}
    (holds : svc.vault.Holds existing before) (given : Option String) :
    svc.vault.Holds (svc.keepOrEncrypt iv existing given) (settle before given) := by
  rw [ConnectionStoreService.keepOrEncrypt, settle]
  split
  · exact holds
  · exact holds_encrypt iv given

/-- The secrets of a tunnel are read back as they were written. -/
theorem decryptSshSecrets_encrypt (iv : Iv) (secrets : SshSecrets) :
    svc.decryptSshSecrets (svc.encryptSshSecrets iv secrets) = some secrets := by
  rw [ConnectionStoreService.encryptSshSecrets]
  split
  · simp only [ConnectionStoreService.decryptSshSecrets,
      svc.vault.decrypt_encrypt iv _ (svc.sshSecretsJson_ne secrets), Option.bind_some,
      svc.sshSecretsJson.parse_stringify]
  · rename_i none_
    have empty : secrets = fun _ => none := by
      funext key
      by_contra some_
      refine none_ (List.any_eq_true.mpr ⟨key, ?_, Option.isSome_iff_ne_none.mpr some_⟩)
      cases key <;> decide
    rw [empty]
    rfl

theorem splitSsh_eq (input : ConnectionInput O) :
    splitSsh input.ssh = ((input.ssh.map SshTunnelConfig.toSshPublic).map fun ssh =>
        { ssh with secret := fun key => marker (truthy (input.given (.ssh key))) },
      fun key => truthy (input.given (.ssh key))) := by
  rw [splitSsh.eq_def]
  cases ssh : input.ssh with
  | none => simp [ConnectionInput.given, ssh, truthy]
  | some config => simp [ConnectionInput.given, ssh]

theorem splitTls_eq (input : ConnectionInput O) :
    splitTls input.tls = ((input.tls.map fun tls => tls.toTlsPublic.trimmed).map fun tls =>
        { tls with key := marker (truthy (input.given .tlsKey)) },
      truthy (input.given .tlsKey)) := by
  rw [splitTls.eq_def]
  cases tls : input.tls with
  | none => simp [ConnectionInput.given, tls, truthy]
  | some config => simp [ConnectionInput.given, tls]

theorem given_ssh_none {input : ConnectionInput O} (none_ : input.settings.ssh = none)
    (key : SshSecretKey) : input.given (.ssh key) = none := by
  have absent : input.ssh = none := Option.map_eq_none_iff.mp none_
  rw [ConnectionInput.given, absent]
  rfl

theorem given_tls_none {input : ConnectionInput O} (none_ : input.settings.tls = none) :
    input.given .tlsKey = none := by
  have absent : input.tls = none := Option.map_eq_none_iff.mp none_
  rw [ConnectionInput.given, absent]
  rfl

theorem represents_create {id : String} {ivs : ConnectionStoreService.Ivs} {input : ConnectionInput O}
    {row : ConnectionRow T} (created : svc.create id ivs input = .ok row) :
    Represents svc row input.settings fun slot => truthy (input.given slot) := by
  rw [ConnectionStoreService.create, splitSsh_eq, splitTls_eq] at created
  cases driver : svc.assertDriver input.details.engine with
  | error e =>
    rw [driver] at created
    exact nomatch created
  | ok _ =>
    rw [driver] at created
    obtain rfl := Except.ok.inj created
    exact {
      details := rfl
      readOnly := rfl
      ssl := rfl
      options := rfl
      password := holds_encrypt _ _
      connectionString := holds_encrypt _ _
      ssh := by simp [ConnectionInput.settings, Function.comp_def]
      sshSecrets := decryptSshSecrets_encrypt _ _
      sshSome := fun key is => truthy_ne is rfl
      sshNone := fun none_ key => by rw [given_ssh_none none_]; rfl
      tls := by simp [ConnectionInput.settings, Function.comp_def]
      tlsKey := holds_encrypt _ _
      tlsNone := fun none_ => by rw [given_tls_none none_]; rfl }

theorem truthy_eq_redacted {given : Option String} :
    truthy given = some REDACTED ↔ given = some REDACTED := by
  constructor
  · exact fun is => (Option.filter_eq_some_iff.mp is).1
  · rintro rfl
    rfl

theorem settle_truthy (before given : Option String) : settle before (truthy given) = settle before given := by
  rw [settle, settle, truthy_truthy]
  exact if_congr truthy_eq_redacted rfl rfl

theorem settle_ne {before given : Option String} (some_ : before ≠ some "") :
    settle before given ≠ some "" := by
  rw [settle]
  split
  · exact some_
  · exact fun is => truthy_ne is rfl

theorem settle_none (before : Option String) : settle before none = none := rfl

/-- Where a secret is kept, the form had a text in its place. -/
theorem marker_settle {before given : Option String} :
    (if (settle before given).isSome then marker (truthy given) else none) =
      marker (settle before given) := by
  cases settled : settle before given with
  | none => rfl
  | some text =>
    cases said : truthy given with
    | some _ => rfl
    | none =>
      have absent : given ≠ some REDACTED := by
        intro is
        rw [is] at said
        exact nomatch said
      rw [settle, if_neg absent, said] at settled
      exact nomatch settled

theorem holds_isSome {enc : Option Payload} {secret : Option String} (holds : svc.vault.Holds enc secret) :
    enc.isSome = secret.isSome := by
  cases secret with
  | none => rw [show enc = none from holds]; rfl
  | some text =>
    obtain ⟨-, payload, rfl, -⟩ := holds
    rfl

variable (svc) in
theorem assertDriver_eq (engine : String) :
    svc.assertDriver engine = .ok () ∧ svc.hasDriver engine = true ∨
      (∃ e, svc.assertDriver engine = .error e) ∧ svc.hasDriver engine = false := by
  rw [ConnectionStoreService.assertDriver]
  cases svc.hasDriver engine with
  | true => exact Or.inl ⟨rfl, rfl⟩
  | false => exact Or.inr ⟨⟨_, rfl⟩, rfl⟩

theorem update_eq {row : ConnectionRow T} {settings : Settings O} {secret : Slot → Option String}
    (represents : Represents svc row settings secret) (ivs : ConnectionStoreService.Ivs)
    {input : ConnectionInput O} (driver : svc.hasDriver input.details.engine = true) :
    ∃ row', svc.update ivs row input = .ok row' ∧ row'.id = row.id ∧ row'.workspaceId = row.workspaceId ∧
      Represents svc row' input.settings fun slot => settle (secret slot) (input.given slot) := by
  have asserted : svc.assertDriver input.details.engine = .ok () := by
    rw [ConnectionStoreService.assertDriver, if_pos driver]
  -- whichever branch reads the stored secrets, these are the ones that are kept
  have settled (stored : SshSecrets)
      (read : (∃ key, truthy (input.given (.ssh key)) = some REDACTED) → stored = fun key => secret (.ssh key))
      (key : SshSecretKey) :
      truthy (if truthy (input.given (.ssh key)) = some REDACTED then stored key
        else truthy (input.given (.ssh key))) = settle (secret (.ssh key)) (input.given (.ssh key)) := by
    by_cases keeps : truthy (input.given (.ssh key)) = some REDACTED
    · rw [if_pos keeps, read ⟨key, keeps⟩, settle, if_pos (truthy_eq_redacted.mp keeps),
        truthy_of_ne (represents.sshSome key)]
    · rw [if_neg keeps, settle, if_neg (mt truthy_eq_redacted.mpr keeps), truthy_truthy]
  have stored : ∃ stored, svc.storedFor row (splitSsh input.ssh).2 = .ok stored ∧
      ((∃ key, truthy (input.given (.ssh key)) = some REDACTED) → stored = fun key => secret (.ssh key)) := by
    rw [ConnectionStoreService.storedFor, splitSsh_eq]
    by_cases any : (SSH_SECRET_KEYS.any fun key => truthy (input.given (.ssh key)) = some REDACTED) = true
    · rw [if_pos any, represents.sshSecrets]
      exact ⟨_, rfl, fun _ => rfl⟩
    · rw [if_neg any]
      refine ⟨_, rfl, ?_⟩
      rintro ⟨key, keeps⟩
      refine absurd (List.any_eq_true.mpr ⟨key, ?_, decide_eq_true keeps⟩) any
      cases key <;> decide
  obtain ⟨stored, read, kept⟩ := stored
  have done : svc.update ivs row input = .ok (svc.updated ivs row input stored) := by
    rw [ConnectionStoreService.update, asserted, read]
    rfl
  refine ⟨_, done, rfl, rfl, ?_⟩
  have key := holds_keepOrEncrypt ivs.tls represents.tlsKey (truthy (input.given .tlsKey))
  rw [settle_truthy] at key
  rw [ConnectionStoreService.updated, splitSsh_eq, splitTls_eq]
  simp only [settled stored kept]
  exact {
    details := rfl
    readOnly := rfl
    ssl := rfl
    options := rfl
    password := holds_keepOrEncrypt _ represents.password _
    connectionString := holds_keepOrEncrypt _ represents.connectionString _
    ssh := by
      simp only [ConnectionInput.settings, Option.map_map, Function.comp_def, marker_settle]
    sshSecrets := decryptSshSecrets_encrypt _ _
    sshSome := fun key => settle_ne (represents.sshSome key)
    sshNone := fun none_ key => by rw [given_ssh_none none_, settle_none]
    tls := by
      simp only [ConnectionInput.settings, Option.map_map, Function.comp_def, holds_isSome key,
        marker_settle]
    tlsKey := key
    tlsNone := fun none_ => by rw [given_tls_none none_, settle_none] }

/-- `pinSshHostKey`, of the settings. -/
def Settings.pin (settings : Settings O) (fingerprint : String) : Settings O :=
  { settings with ssh := settings.ssh.map fun ssh =>
      if (ssh.hostKey.getD "").toList.any fun c => !isSpace c.toNat then ssh
      else { ssh with hostKey := some fingerprint } }

theorem represents_pin {row : ConnectionRow T} {settings : Settings O} {secret : Slot → Option String}
    (represents : Represents svc row settings secret) (fingerprint : String) :
    Represents svc (svc.pinSshHostKey row fingerprint) (settings.pin fingerprint) secret := by
  rw [ConnectionStoreService.pinSshHostKey, represents.ssh]
  cases ssh : settings.ssh with
  | none =>
    have same : settings.pin fingerprint = settings := by
      cases settings
      simp_all [Settings.pin]
    rw [same]
    exact represents
  | some public_ =>
    simp only [Option.map_some, Option.bind_some, svc.sshJson.parse_stringify]
    split
    · rename_i pinned
      have same : settings.pin fingerprint = settings := by
        cases settings
        simp_all [Settings.pin]
      rw [same]
      exact represents
    · rename_i pinned
      exact { represents with
        ssh := by simp only [Settings.pin, ssh, Option.map_some, if_neg pinned]
        sshNone := fun none_ => by simp [Settings.pin, ssh] at none_ }

theorem pinSshHostKey_same (row : ConnectionRow T) (fingerprint : String) :
    (svc.pinSshHostKey row fingerprint).id = row.id ∧
      (svc.pinSshHostKey row fingerprint).workspaceId = row.workspaceId := by
  rw [ConnectionStoreService.pinSshHostKey]
  split
  · exact ⟨rfl, rfl⟩
  · split <;> exact ⟨rfl, rfl⟩

end

/-! ## A run of saves -/

inductive SaveRequest (O : Type) where
  | edit (ivs : ConnectionStoreService.Ivs) (input : ConnectionInput O)
  | pin (fingerprint : String)

/-- A save that is refused leaves the row as it was. -/
def ConnectionStoreService.save (svc : ConnectionStoreService O T) (row : ConnectionRow T) :
    SaveRequest O → ConnectionRow T
  | .edit ivs input =>
    match svc.update ivs row input with
    | .ok row => row
    | .error _ => row
  | .pin fingerprint => svc.pinSshHostKey row fingerprint

/-- What a save leaves of the settings, which no secret has a part in… -/
def settingsAfter (svc : ConnectionStoreService O T) (settings : Settings O) : SaveRequest O → Settings O
  | .edit _ input => if svc.hasDriver input.details.engine then input.settings else settings
  | .pin fingerprint => settings.pin fingerprint

/-- …and of one secret, which nothing but what is said of it has. -/
def secretAfter (svc : ConnectionStoreService O T) (slot : Slot) (secret : Option String) :
    SaveRequest O → Option String
  | .edit _ input =>
    if svc.hasDriver input.details.engine then settle secret (input.given slot) else secret
  | .pin _ => secret

section

variable {svc : ConnectionStoreService O T} {settings : Settings O} {secret : Slot → Option String}

theorem represents_save {row : ConnectionRow T} (represents : Represents svc row settings secret)
    (save : SaveRequest O) :
    Represents svc (svc.save row save) (settingsAfter svc settings save)
        (fun slot => secretAfter svc slot (secret slot) save) ∧
      (svc.save row save).id = row.id ∧ (svc.save row save).workspaceId = row.workspaceId := by
  cases save with
  | pin fingerprint => exact ⟨represents_pin represents fingerprint, pinSshHostKey_same row fingerprint⟩
  | edit ivs input =>
    simp only [ConnectionStoreService.save, settingsAfter, secretAfter]
    by_cases driver : svc.hasDriver input.details.engine = true
    · obtain ⟨row', done, id, workspace, after⟩ := update_eq represents ivs driver
      simp only [done, if_pos driver]
      exact ⟨after, id, workspace⟩
    · obtain ⟨e, refused⟩ : ∃ e, svc.update ivs row input = .error e := by
        obtain ⟨-, is⟩ | ⟨⟨e, refused⟩, -⟩ := assertDriver_eq svc input.details.engine
        · exact absurd is driver
        · exact ⟨e, by rw [ConnectionStoreService.update, refused]; rfl⟩
      simp only [refused, if_neg driver]
      exact ⟨represents, trivial, trivial⟩

theorem represents_saves {row : ConnectionRow T} (represents : Represents svc row settings secret)
    (saves : List (SaveRequest O)) :
    Represents svc (saves.foldl svc.save row) (saves.foldl (settingsAfter svc) settings)
        (fun slot => saves.foldl (secretAfter svc slot) (secret slot)) ∧
      (saves.foldl svc.save row).id = row.id ∧
      (saves.foldl svc.save row).workspaceId = row.workspaceId := by
  induction saves generalizing row settings secret with
  | nil => exact ⟨represents, rfl, rfl⟩
  | cons save saves ih =>
    obtain ⟨after, id, workspace⟩ := represents_save represents save
    obtain ⟨represents, id', workspace'⟩ := ih after
    exact ⟨represents, id'.trans id, workspace'.trans workspace⟩

/-- What a view or a resolved connection shows in the place of a secret. -/
theorem given_config {shown : Slot → Option String} (ssh : settings.ssh = none → ∀ key, shown (.ssh key) = none)
    (tls : settings.tls = none → shown .tlsKey = none) (id workspaceId : String) (slot : Slot) :
    (settings.config id workspaceId shown).given slot = shown slot := by
  cases slot with
  | password => rfl
  | connectionString => rfl
  | ssh key =>
    cases some_ : settings.ssh with
    | none => simp [ConnectionInput.given, Settings.config, some_, ssh some_ key]
    | some _ => simp [ConnectionInput.given, Settings.config, some_]
  | tlsKey =>
    cases some_ : settings.tls with
    | none => simp [ConnectionInput.given, Settings.config, some_, tls some_]
    | some _ => simp [ConnectionInput.given, Settings.config, some_]

/-- A secret that is sent back as it was shown is kept. -/
theorem settle_redacted (slot : Slot) : settle (secret slot) (redacted secret slot) = secret slot := by
  rw [settle, redacted]
  cases secret slot <;> rfl

end

/-! ## The connection that a driver is given (`reachHostFromContainer`) -/

def LOOPBACK_NAMES : List (List Char) :=
  ["localhost".toList, "::1".toList, "0.0.0.0".toList, "::".toList, "localhost.localdomain".toList]

def isLoopbackHost (host : Option String) : Bool :=
  match host with
  | none => false
  | some host =>
    let h := (trim host.toList).map Char.toLower
    let h := if h.head? = some '[' then h.tail else h
    let h := if h.getLast? = some ']' then h.dropLast else h
    decide (h ∈ LOOPBACK_NAMES) ||
      match h.splitOn '.' with
      | [a, b, c, d] =>
        a = "127".toList &&
          [b, c, d].all fun part => part.all Char.isDigit && 1 ≤ part.length && part.length ≤ 3
      | _ => false

/-- `URL` -/
structure UrlParser (U : Type) where
  /-- none: it throws -/
  parse : String → Option U
  protocol : U → String
  hostname : U → String
  setHostname : U → String → U
  toText : U → String

/-- Where the service runs. -/
structure Surroundings (U : Type) where
  url : UrlParser U
  inContainer : Bool
  gateway : Option String

variable {U : Type}

def UrlParser.withHost (url : UrlParser U) (connectionString : String) (host : String) : String :=
  let name := String.ofList (trim host.toList)
  if name = "" then connectionString
  else
    match url.parse connectionString with
    | none => connectionString
    | some parsed =>
      if "+srv".toList <:+: (url.protocol parsed).toList then connectionString
      else if url.hostname parsed = name then connectionString
      else url.toText (url.setHostname parsed name)

def UrlParser.hostOf (url : UrlParser U) (connectionString : Option String) : Option String := do
  truthy (url.hostname (← url.parse (← truthy connectionString)))

def reachHostFromContainer (at_ : Surroundings U) (config : ConnectionConfig O) : ConnectionConfig O :=
  if config.details.engine = "sqlite" then config
  else if (config.ssh.map fun ssh => ssh.enabled) = some true then config
  else if !at_.inContainer then config
  else
    let stringHost := at_.url.hostOf config.connectionString
    let hostIsLoopback := isLoopbackHost config.details.host
    let stringIsLoopback := isLoopbackHost stringHost
    if !hostIsLoopback && !stringIsLoopback then config
    else
      match truthy at_.gateway with
      | none => config
      | some host =>
        let asked := if hostIsLoopback then config.details.host else stringHost
        { config with
          details := { config.details with
            host := if hostIsLoopback then some host else config.details.host }
          connectionString :=
            if stringIsLoopback then config.connectionString.map fun text => at_.url.withHost text host
            else config.connectionString
          tls := config.tls.map fun tls =>
            if (truthy tls.servername).isSome then tls else { tls with servername := asked } }

/-- Where a connection is dialled over the host of its container: by a server of its own, and not
through a tunnel. -/
def Redials (at_ : Surroundings U) (config : ConnectionConfig O) : Prop :=
  at_.inContainer = true ∧ config.details.engine ≠ "sqlite" ∧
    (config.ssh.map fun ssh => ssh.enabled) ≠ some true

instance (at_ : Surroundings U) (config : ConnectionConfig O) : Decidable (Redials at_ config) :=
  inferInstanceAs (Decidable (_ ∧ _ ∧ _))

/-- A secret as the driver gets it: a connection string to this very machine names the host that it
is dialled over. -/
def dialled (at_ : Surroundings U) (config : ConnectionConfig O) (slot : Slot) (secret : Option String) :
    Option String :=
  if slot = .connectionString ∧ Redials at_ config ∧ isLoopbackHost (at_.url.hostOf secret) = true then
    match truthy at_.gateway with
    | none => secret
    | some host => secret.map fun text => at_.url.withHost text host
  else secret

theorem dialled_of_ne {at_ : Surroundings U} {config : ConnectionConfig O} {slot : Slot}
    (other : slot ≠ .connectionString) (secret : Option String) : dialled at_ config slot secret = secret :=
  if_neg fun told => other told.1

/-- The copy for a driver has the secrets as they are dialled. -/
theorem given_reach (at_ : Surroundings U) (config : ConnectionConfig O) (slot : Slot) :
    (reachHostFromContainer at_ config).given slot = dialled at_ config slot (config.given slot) := by
  by_cases redials : Redials at_ config
  · obtain ⟨inside, server, direct⟩ := redials
    rw [reachHostFromContainer, if_neg server, if_neg direct, if_neg (by simp [inside])]
    cases slot with
    | password | ssh key =>
      rw [dialled_of_ne (by simp)]
      dsimp only
      split
      · rfl
      · split <;> rfl
    | tlsKey =>
      rw [dialled_of_ne (by simp)]
      dsimp only
      split
      · rfl
      split
      · rfl
      show (config.tls.map _).bind TlsConfig.key = config.tls.bind TlsConfig.key
      cases config.tls with
      | none => rfl
      | some tls =>
        rw [Option.map_some, Option.bind_some, Option.bind_some]
        split <;> rfl
    | connectionString =>
      by_cases loopback : isLoopbackHost (at_.url.hostOf config.connectionString) = true
      · have told : dialled at_ config .connectionString config.connectionString = _ :=
          if_pos ⟨rfl, ⟨inside, server, direct⟩, loopback⟩
        refine Eq.trans ?_ told.symm
        simp only [loopback, Bool.not_true, Bool.and_false, Bool.false_eq_true, if_false, if_true]
        cases truthy at_.gateway <;> rfl
      · have told : dialled at_ config .connectionString config.connectionString = config.connectionString :=
          if_neg fun told => loopback told.2.2
        refine Eq.trans ?_ told.symm
        dsimp only
        split
        · rfl
        split
        · rfl
        · rfl
  · have same : reachHostFromContainer at_ config = config := by
      unfold reachHostFromContainer
      split
      · rfl
      split
      · rfl
      split
      · rfl
      next server direct inside => exact absurd ⟨by simpa using inside, server, direct⟩ redials
    rw [same, dialled, if_neg fun told => redials told.2.1]

/-! ## The connection, as it is stored, shown and resolved -/

namespace ConnectionStoreService

variable (svc : ConnectionStoreService O T)

/-- `get`, and what `create`, `update` and `list` hand out. -/
def get (row : ConnectionRow T) : Option (ConnectionConfig O) := svc.toConfig row false

def resolve (at_ : Surroundings U) (row : ConnectionRow T) : Option (ConnectionConfig O) :=
  (svc.toConfig row true).map (reachHostFromContainer at_)

end ConnectionStoreService

/-- A secret after a form has created its connection, and after some saves. -/
def typedLast (svc : ConnectionStoreService O T) (input : ConnectionInput O) (saves : List (SaveRequest O))
    (slot : Slot) : Option String :=
  saves.foldl (secretAfter svc slot) (truthy (input.given slot))

/-- Each secret resolves to what was last typed for it, one that is sent back as it was shown is kept,
and what is shown has no secret in it. -/
theorem secrets_survive (svc : ConnectionStoreService O T) (at_ : Surroundings U) (id : String)
    (ivs : ConnectionStoreService.Ivs) (input : ConnectionInput O) (saves : List (SaveRequest O)) :
    match svc.create id ivs input with
    | .error _ => svc.hasDriver input.details.engine = false
    | .ok created =>
      let row := saves.foldl svc.save created
      let secret := typedLast svc input saves
      let view := (saves.foldl (settingsAfter svc) input.settings).config id created.workspaceId
        (redacted secret)
      (svc.get row = some view ∧ ∀ slot, view.given slot = redacted secret slot) ∧
        (∃ config, svc.resolve at_ row = some config ∧
          ∀ slot, config.given slot = dialled at_ view slot (secret slot)) ∧
        ∀ ivs (form : ConnectionInput O) slot, form.given slot = view.given slot →
          typedLast svc input (saves ++ [.edit ivs form]) slot = secret slot := by
  cases created : svc.create id ivs input with
  | error e =>
    obtain ⟨asserted, -⟩ | ⟨-, refused⟩ := assertDriver_eq svc input.details.engine
    · rw [ConnectionStoreService.create, asserted] at created
      exact nomatch created
    · exact refused
  | ok row =>
    obtain ⟨represents, id_, workspace⟩ := represents_saves (represents_create created) saves
    have is : row.id = id := by
      obtain ⟨asserted, -⟩ | ⟨⟨e, refused⟩, -⟩ := assertDriver_eq svc input.details.engine
      · rw [ConnectionStoreService.create, asserted] at created
        obtain rfl := Except.ok.inj created
        rfl
      · rw [ConnectionStoreService.create, refused] at created
        exact nomatch created
    have shown (slot : Slot) : ((saves.foldl (settingsAfter svc) input.settings).config id row.workspaceId
        (redacted (typedLast svc input saves))).given slot = redacted (typedLast svc input saves) slot := by
      refine given_config (fun none_ key => ?_) (fun none_ => ?_) id row.workspaceId slot
      · rw [redacted, typedLast, represents.sshNone none_ key]
        rfl
      · rw [redacted, typedLast, represents.tlsNone none_]
        rfl
    have full := toConfig_eq represents true
    have view := toConfig_eq represents false
    rw [id_, is, workspace] at full view
    refine ⟨⟨view, shown⟩, ⟨_, congrArg (Option.map _) full, fun slot => ?_⟩, fun ivs form slot sent => ?_⟩
    · have own : ((saves.foldl (settingsAfter svc) input.settings).config id row.workspaceId
          (typedLast svc input saves)).given slot = typedLast svc input saves slot :=
        given_config represents.sshNone represents.tlsNone id row.workspaceId slot
      have reached := given_reach at_ ((saves.foldl (settingsAfter svc) input.settings).config id
        row.workspaceId (typedLast svc input saves)) slot
      rw [own] at reached
      refine reached.trans ?_
      -- the view is of the same engine, and with the same tunnel
      have alike : ∀ shown shown' : Slot → Option String, ∀ settings : Settings O,
          Redials at_ (settings.config id row.workspaceId shown) ↔
            Redials at_ (settings.config id row.workspaceId shown') := by
        intro shown shown' settings
        simp [Redials, Settings.config, Function.comp_def]
      simp only [dialled, alike _ (redacted (typedLast svc input saves))]
    · rw [typedLast, List.foldl_append]
      show secretAfter svc slot (typedLast svc input saves slot) (.edit ivs form) = _
      rw [secretAfter, sent, shown, settle_redacted]
      split <;> rfl

namespace Container

/-!
## A connection string to the machine itself, in a container

The parts that are not the store's own are stand-ins that keep what the store relies on, and no more:
the cipher hides nothing (`openGcm`), and a JSON text is a mark or a letter by letter notation of what
was spelled, which reads back as that (`secretsJson`). `new URL` knows the one string there is.
-/

/-- The texts of a row's JSON columns, by what they spell. -/
inductive StoredText where
  | options (options : Unit)
  | ssh (ssh : SshTunnelConfig)
  | tls (tls : TlsConfig)

def writeText : Option String → List Char
  | none => ['-']
  | some text => '+' :: (text.toList.flatMap fun c => ['x', c]) ++ ['.']

def readLetters : List Char → List Char × List Char
  | 'x' :: c :: rest => (c :: (readLetters rest).1, (readLetters rest).2)
  | rest => ([], rest)

def readText : List Char → Option (Option String × List Char)
  | '-' :: rest => some (none, rest)
  | '+' :: rest => some (some (String.ofList (readLetters rest).1), (readLetters rest).2.tail)
  | _ => none

theorem readLetters_append (text rest : List Char) :
    readLetters ((text.flatMap fun c => ['x', c]) ++ '.' :: rest) = (text, '.' :: rest) := by
  induction text with
  | nil => rfl
  | cons c text ih =>
    have first : (c :: text).flatMap (fun c => ['x', c]) ++ '.' :: rest =
        'x' :: c :: ((text.flatMap fun c => ['x', c]) ++ '.' :: rest) := rfl
    rw [first, readLetters, ih]

theorem readText_append (text : Option String) (rest : List Char) :
    readText (writeText text ++ rest) = some (text, rest) := by
  cases text with
  | none => rfl
  | some text =>
    have letters := readLetters_append text.toList rest
    have first : writeText (some text) ++ rest =
        '+' :: ((text.toList.flatMap fun c => ['x', c]) ++ '.' :: rest) := by
      simp [writeText]
    rw [first, readText, letters, String.ofList_toList]
    rfl

/-- The three texts one behind the other, a mark before each letter. -/
def secretsJson : Json SshSecrets String where
  stringify secrets := String.ofList
    (writeText (secrets .password) ++ (writeText (secrets .privateKey) ++ writeText (secrets .passphrase)))
  parse text := do
    let (password, rest) ← readText text.toList
    let (privateKey, rest) ← readText rest
    let (passphrase, _) ← readText (rest ++ [])
    return fun
      | .password => password
      | .privateKey => privateKey
      | .passphrase => passphrase
  parse_stringify secrets := by
    have last := readText_append (secrets .passphrase) []
    rw [List.append_nil] at last
    simp only [String.toList_ofList, readText_append, List.append_nil, last, Option.bind_eq_bind,
      Option.bind_some, Option.pure_def, Option.some.injEq]
    funext key
    cases key <;> rfl

def service : ConnectionStoreService Unit StoredText where
  vault := Vault.ofKeys openGcm openGcm_lawful { current := 1, configured := [] }
  hasDriver engine := engine = "postgres"
  optionsJson :=
    { stringify := .options
      parse := fun text => match text with | .options options => some options | _ => none
      parse_stringify := fun _ => rfl }
  sshJson :=
    { stringify := .ssh
      parse := fun text => match text with | .ssh ssh => some ssh | _ => none
      parse_stringify := fun _ => rfl }
  tlsJson :=
    { stringify := .tls
      parse := fun text => match text with | .tls tls => some tls | _ => none
      parse_stringify := fun _ => rfl }
  sshSecretsJson := secretsJson
  sshSecretsJson_ne secrets := by
    intro empty
    have letters := congrArg String.toList empty
    cases password : secrets .password <;>
      simp [secretsJson, writeText, password] at letters

def input : ConnectionInput Unit where
  details := ⟨"here", "postgres", none, none, none, none, none, none⟩
  workspaceId := none
  readOnly := none
  password := none
  ssl := none
  connectionString := some "postgres://u:p@localhost/db"
  options := none
  ssh := none
  tls := none

/-- `URL`, of that string. -/
def surroundings : Surroundings String where
  url :=
    { parse := fun text => if text = "postgres://u:p@localhost/db" then some "localhost" else none
      protocol := fun _ => "postgres:"
      hostname := id
      setHostname := fun _ host => host
      toText := fun host => "postgres://u:p@" ++ host ++ "/db" }
  inContainer := true
  gateway := some "host.docker.internal"

/-- What is resolved is not what was typed. -/
theorem loopback_redialled :
    ¬ ∀ (svc : ConnectionStoreService Unit StoredText) (at_ : Surroundings String) (id : String)
      (ivs : ConnectionStoreService.Ivs) (input : ConnectionInput Unit) (row : ConnectionRow StoredText),
      svc.create id ivs input = .ok row → ∀ config, svc.resolve at_ row = some config →
        ∀ slot, config.given slot = truthy (input.given slot) := by
  intro all
  have created : service.create "c1" ⟨zeroIv, zeroIv, zeroIv, zeroIv⟩ input = .ok _ := rfl
  have resolved := congrArg (Option.map (reachHostFromContainer surroundings))
    (toConfig_eq (represents_create created) true)
  have typed := all service surroundings "c1" ⟨zeroIv, zeroIv, zeroIv, zeroIv⟩ input _ created _ resolved .connectionString
  exact absurd typed (by decide)

end Container

end Syncle.Secrets
