import Mathlib.Data.Bool.AllAny
import Syncle.Accounts.Cookies
import Syncle.Secrets.Crypto

/-!
# Session tokens (`CryptoService`, `AuthService`)

A token is `body.signature`: the JSON of a payload in base64url, and its HMAC under a sub-key of the
master key. A token that was signed under a previous key is still one, "changing the key does not sign
everybody out". How old a token is, is asked by `sessionFromRequest` alone.

The signature is compared as bytes of UTF-8, after its length in code units: `timingSafeEqual` throws
for bytes of two lengths.
-/

namespace Syncle.Accounts

open Syncle.Lib
open Syncle.Secrets (Bytes Keys)

/-! ## Signing -/

/-- What is taken from outside: HMAC-SHA256 under the sub-key of a master key, and JSON. -/
structure Signing (K J : Type) where
  digest : K → List Char → { bytes : Bytes // bytes.length = 32 }
  /-- `JSON.stringify`, in UTF-8 -/
  stringify : J → Bytes
  /-- `JSON.parse` of the text of bytes; none where it throws, or for `null` -/
  parse : Bytes → Option J

structure Signing.Lawful {K J : Type} (s : Signing K J) : Prop where
  parse_stringify : ∀ payload, s.parse (s.stringify payload) = some payload
  parse_nil : s.parse [] = none

inductive TokenError where
  /-- "Input buffers must have the same byte length" -/
  | rangeError
  deriving DecidableEq

variable {K J : Type} (s : Signing K J)

/-- `base64url(createHmac('sha256', key).update(body).digest())` -/
def Signing.signature (key : K) (body : List Char) : List Char :=
  Base64.encodeUrl (s.digest key body)

def Signing.signToken (key : K) (payload : J) : List Char :=
  let body := Base64.encodeUrl (s.stringify payload)
  body ++ '.' :: s.signature key body

/-! ## Reading a token -/

/-- What stands before the last dot, and behind it. -/
def splitLast : List Char → Option (List Char × List Char)
  | [] => none
  | c :: rest =>
    match splitLast rest with
    | some (body, sig) => some (c :: body, sig)
    | none => if c = '.' then some ([], rest) else none

def timingSafeEqual (a b : List ℕ) : Except TokenError Bool :=
  if a.length = b.length then .ok (a = b) else .error .rangeError

def sigFits (sig expected : List Char) : Except TokenError Bool :=
  if (sig.flatMap utf16).length = (expected.flatMap utf16).length then
    timingSafeEqual (sig.flatMap utf8) (expected.flatMap utf8)
  else .ok false

def fitsSome (body sig : List Char) : List K → Except TokenError Bool
  | [] => .ok false
  | key :: rest => do
    if ← sigFits sig (s.signature key body) then return true
    else fitsSome body sig rest

variable [DecidableEq K]

def verifyToken (keys : Keys K) (token : List Char) : Except TokenError (Option J) :=
  match splitLast token with
  | none | some ([], _) => .ok none
  | some (body, sig) => do
    if ← fitsSome s body sig (keys.current :: keys.previousKeys) then
      return s.parse (Base64.read (String.ofList body))
    else return none

/-! ## Sessions -/

def SESSION_COOKIE : List Char := "db_session".toList

structure SessionUser where
  id : String
  sessionVersion : ℤ
  disabled : Bool
  deriving DecidableEq

/-- The fields of a payload, as far as there are any. -/
structure SessionPayload where
  uid : Option String
  v : Option ℤ
  iat : Option ℤ
  deriving DecidableEq

/-- The service at the time of a request. -/
structure SessionService (J : Type) where
  payload : J → SessionPayload
  sessionTtlMinutes : ℕ
  findUnique : String → Option SessionUser
  nowMs : ℕ

/-- What `sessionFromRequest` asks of a payload. -/
def sessionOf (service : SessionService J) (json : J) : Option (SessionUser × ℤ) :=
  let payload := service.payload json
  match payload.uid with
  | none => none
  | some uid =>
    if uid = "" then none
    else
      let ageSec : ℤ := service.nowMs / 1000 - payload.iat.getD 0
      if (service.sessionTtlMinutes : ℤ) * 60 < ageSec then none
      else
        match service.findUnique uid with
        | none => none
        | some user =>
          if some user.sessionVersion ≠ payload.v then none
          else if user.disabled then none
          else some (user, ageSec)

/-- `sessionFromRequest`: the user of a request's cookie, and how old that cookie is. -/
def sessionFromRequest (service : SessionService J) (keys : Keys K) (header : Option (List Char)) :
    Except TokenError (Option (SessionUser × ℤ)) :=
  match readCookie header SESSION_COOKIE with
  | none => .ok none
  | some token => do
    -- an empty text is no token
    if token = [] then return none
    match ← verifyToken s keys token with
    | none => return none
    | some json => return sessionOf service json

/-! ## Signatures -/

omit [DecidableEq K] in
theorem length_signature (key : K) (body : List Char) : (s.signature key body).length = 43 := by
  rw [Signing.signature, Base64.length_encodeUrl, (s.digest key body).2]

theorem ascii_encodeUrl (bytes : Bytes) : ∀ c ∈ Base64.encodeUrl bytes, Ascii c := by
  have letters : ∀ c ∈ Base64.alphabet, Ascii c := by
    rw [Base64.alphabet_eq]
    exact List.all_iff_forall_prop.mp rfl
  intro c mem
  by_contra other
  refine Base64.not_mem_encodeUrl (fun letter => other (letters c letter)) ?_ ?_ bytes mem
  · rintro rfl
    exact other (by decide)
  · rintro rfl
    exact other (by decide)

/-- The last part of a token is one that the comparison does not throw for: 43 code units that are not
all ASCII are more bytes than a signature has. -/
def PlainSignature (token : List Char) : Prop :=
  ∀ body sig, splitLast token = some (body, sig) → body ≠ [] →
    (sig.flatMap utf16).length = 43 → ∀ c ∈ sig, Ascii c

variable {s}

omit [DecidableEq K] in
theorem sigFits_signature {sig : List Char} (plain : (sig.flatMap utf16).length = 43 → ∀ c ∈ sig, Ascii c)
    (key : K) (body : List Char) :
    sigFits sig (s.signature key body) = .ok (decide (sig = s.signature key body)) := by
  have ascii : ∀ c ∈ s.signature key body, Ascii c := ascii_encodeUrl _
  have units : (s.signature key body).flatMap utf16 = (s.signature key body).map Char.toNat :=
    flatMap_ascii utf16_of_ascii ascii
  have bytes : (s.signature key body).flatMap utf8 = (s.signature key body).map Char.toNat :=
    flatMap_ascii utf8_of_ascii ascii
  rw [sigFits, units, List.length_map, length_signature]
  by_cases length : (sig.flatMap utf16).length = 43
  · have letters := plain length
    rw [flatMap_ascii utf16_of_ascii letters, List.length_map] at length
    rw [flatMap_ascii utf16_of_ascii letters, List.length_map, if_pos length, bytes,
      flatMap_ascii utf8_of_ascii letters, timingSafeEqual, List.length_map, List.length_map,
      length_signature, if_pos length]
    have same : sig.map Char.toNat = (s.signature key body).map Char.toNat ↔ sig = s.signature key body :=
      ⟨map_toNat_inj, fun is => by rw [is]⟩
    rw [decide_eq_decide.mpr same]
  · have other : sig ≠ s.signature key body := by
      rintro rfl
      rw [units, List.length_map, length_signature] at length
      exact length rfl
    rw [if_neg length, decide_eq_false other]

omit [DecidableEq K] in
/-- …and so it throws, whatever the key. -/
theorem sigFits_throws {sig : List Char} (length : (sig.flatMap utf16).length = 43)
    (foreign : ∃ c ∈ sig, ¬ Ascii c) (key : K) (body : List Char) :
    sigFits sig (s.signature key body) = .error .rangeError := by
  have ascii : ∀ c ∈ s.signature key body, Ascii c := ascii_encodeUrl _
  have longer := length_flatMap_utf16_lt foreign
  have differ : (sig.flatMap utf8).length ≠ ((s.signature key body).map Char.toNat).length := by
    rw [List.length_map, length_signature]
    omega
  rw [sigFits, flatMap_ascii utf16_of_ascii ascii, List.length_map, length_signature, if_pos length,
    timingSafeEqual, flatMap_ascii utf8_of_ascii ascii, if_neg differ]

omit [DecidableEq K] in
theorem fitsSome_eq {sig : List Char} (plain : (sig.flatMap utf16).length = 43 → ∀ c ∈ sig, Ascii c)
    (body : List Char) (keys : List K) :
    fitsSome s body sig keys = .ok (decide (∃ key ∈ keys, sig = s.signature key body)) := by
  induction keys with
  | nil => simp [fitsSome]
  | cons key keys ih =>
    rw [fitsSome, sigFits_signature plain key body]
    by_cases fits : sig = s.signature key body
    · have found : ∃ k ∈ key :: keys, sig = s.signature k body := ⟨key, List.mem_cons_self, fits⟩
      rw [decide_eq_true fits, decide_eq_true found]
      rfl
    · have same : (∃ k ∈ key :: keys, sig = s.signature k body) ↔ ∃ k ∈ keys, sig = s.signature k body := by
        simp [fits]
      rw [decide_eq_false fits, decide_eq_decide.mpr same, ← ih]
      rfl

/-! ## Where a token is cut -/

theorem splitLast_eq_none {token : List Char} : splitLast token = none ↔ '.' ∉ token := by
  induction token with
  | nil => simp [splitLast]
  | cons c rest ih =>
    rw [splitLast]
    cases found : splitLast rest with
    | some parts =>
      have mem : '.' ∈ rest := by
        by_contra none_
        rw [ih.mpr none_] at found
        exact nomatch found
      simp [mem]
    | none =>
      have none_ := ih.mp found
      by_cases dot : c = '.'
      · simp [dot]
      · simp [dot, none_, Ne.symm dot]

theorem splitLast_eq_some {token body sig : List Char} :
    splitLast token = some (body, sig) ↔ token = body ++ '.' :: sig ∧ '.' ∉ sig := by
  induction token generalizing body sig with
  | nil => simp [splitLast]
  | cons c rest ih =>
    rw [splitLast]
    cases found : splitLast rest with
    | some parts =>
      obtain ⟨front, back⟩ := parts
      obtain ⟨is, last⟩ := ih.mp found
      constructor
      · intro same
        obtain ⟨rfl, rfl⟩ := Prod.mk.inj (Option.some.inj same)
        exact ⟨by rw [is]; rfl, last⟩
      · rintro ⟨token, none_⟩
        cases body with
        | nil =>
          obtain ⟨-, rfl⟩ := List.cons.inj token
          exact absurd (by rw [is]; simp) none_
        | cons c' body =>
          obtain ⟨rfl, rest⟩ := List.cons.inj token
          have again := (ih.mpr ⟨rest, none_⟩).symm.trans found
          obtain ⟨rfl, rfl⟩ := Prod.mk.inj (Option.some.inj again)
          rfl
    | none =>
      have noDot := splitLast_eq_none.mp found
      constructor
      · intro same
        by_cases dot : c = '.'
        · simp only [dot, if_true] at same
          obtain ⟨rfl, rfl⟩ := Prod.mk.inj (Option.some.inj same)
          exact ⟨by rw [dot]; rfl, noDot⟩
        · simp [dot] at same
      · rintro ⟨token, none_⟩
        cases body with
        | nil =>
          obtain ⟨rfl, rfl⟩ := List.cons.inj token
          rfl
        | cons c' body =>
          obtain ⟨-, rfl⟩ := List.cons.inj token
          exact absurd (by simp) noDot

/-! ## What is read -/

/-- `token` is the signature of a body that holds the payload, under one of the keys. -/
def Carries (s : Signing K J) (keys : Keys K) (token : List Char) (payload : J) : Prop :=
  ∃ key ∈ keys, ∃ body, body ≠ [] ∧ token = body ++ '.' :: s.signature key body ∧
    s.parse (Base64.read (String.ofList body)) = some payload

theorem mem_keys {keys : Keys K} {key : K} : key ∈ keys.current :: keys.previousKeys ↔ key ∈ keys := by
  rw [List.mem_cons, Keys.mem_previousKeys, Keys.mem_def]
  by_cases current : key = keys.current <;> simp [current]

omit [DecidableEq K] in
theorem dot_not_mem_signature (key : K) (body : List Char) : '.' ∉ s.signature key body := by
  have letters : '.' ∉ Base64.alphabet := by
    rw [Base64.alphabet_eq]
    decide
  exact Base64.not_mem_encodeUrl letters (by decide) (by decide) _

/-- A token is read: without a throw, and as the payload that is signed in it, if one is. -/
def Reads (s : Signing K J) (keys : Keys K) (token : List Char) : Prop :=
  ∃ result, verifyToken s keys token = .ok result ∧
    ∀ payload, result = some payload ↔ Carries s keys token payload

variable (s) in
theorem verifyToken_spec (keys : Keys K) {token : List Char} (plain : PlainSignature token) :
    Reads s keys token := by
  -- only a token that is cut after something can carry a payload
  have refuses (none_ : ∀ body sig, splitLast token = some (body, sig) → body = []) :
      ∀ payload, (none : Option J) = some payload ↔ Carries s keys token payload := by
    refine fun payload => ⟨fun is => (nomatch is), ?_⟩
    rintro ⟨key, -, body, some_, is, -⟩
    exact absurd (none_ body _ (splitLast_eq_some.mpr ⟨is, dot_not_mem_signature key body⟩)) some_
  unfold Reads
  rw [verifyToken]
  cases cut : splitLast token with
  | none => exact ⟨none, rfl, refuses fun body sig is => nomatch cut.symm.trans is⟩
  | some parts =>
    obtain ⟨body, sig⟩ := parts
    cases body with
    | nil =>
      refine ⟨none, rfl, refuses fun body sig is => ?_⟩
      exact (Prod.mk.inj (Option.some.inj (is.symm.trans cut))).1
    | cons c body =>
      simp only [fitsSome_eq (plain _ _ cut (List.cons_ne_nil _ _))]
      by_cases fits : ∃ key ∈ keys.current :: keys.previousKeys, sig = s.signature key (c :: body)
      · rw [decide_eq_true fits]
        refine ⟨_, rfl, fun payload => ⟨fun is => ?_, ?_⟩⟩
        · obtain ⟨key, mem, rfl⟩ := fits
          exact ⟨key, mem_keys.mp mem, c :: body, List.cons_ne_nil _ _, (splitLast_eq_some.mp cut).1, is⟩
        · rintro ⟨key, -, body', -, is, read⟩
          have again := splitLast_eq_some.mpr ⟨is, dot_not_mem_signature key body'⟩
          obtain ⟨rfl, rfl⟩ := Prod.mk.inj (Option.some.inj (again.symm.trans cut))
          exact read
      · rw [decide_eq_false fits]
        refine ⟨none, rfl, fun payload => ⟨fun is => (nomatch is), ?_⟩⟩
        rintro ⟨key, mem, body', -, is, -⟩
        have again := splitLast_eq_some.mpr ⟨is, dot_not_mem_signature key body'⟩
        obtain ⟨rfl, rfl⟩ := Prod.mk.inj (Option.some.inj (again.symm.trans cut))
        exact absurd ⟨key, mem_keys.mpr mem, rfl⟩ fits

variable (s) in
/-- Any other token makes it throw, at the first key already. -/
theorem verifyToken_throws (keys : Keys K) {token : List Char} (plain : ¬ PlainSignature token) :
    verifyToken s keys token = .error .rangeError := by
  simp only [PlainSignature, not_forall] at plain
  obtain ⟨body, sig, cut, some_, length, c, mem, foreign⟩ := plain
  rw [verifyToken, cut]
  cases body with
  | nil => exact absurd rfl some_
  | cons c' body =>
    simp only [fitsSome, sigFits_throws length ⟨c, mem, foreign⟩]
    rfl

variable (s) in
theorem reads_iff (keys : Keys K) (token : List Char) :
    Reads s keys token ↔ PlainSignature token := by
  constructor
  · rintro ⟨result, verified, -⟩
    by_contra plain
    exact nomatch verified.symm.trans (verifyToken_throws s keys plain)
  · exact verifyToken_spec s keys

omit [DecidableEq K] in
theorem splitLast_signToken (key : K) (payload : J) :
    splitLast (s.signToken key payload) = some (Base64.encodeUrl (s.stringify payload),
      s.signature key (Base64.encodeUrl (s.stringify payload))) :=
  splitLast_eq_some.mpr ⟨rfl, dot_not_mem_signature _ _⟩

omit [DecidableEq K] in
theorem plainSignature_signToken (key : K) (payload : J) : PlainSignature (s.signToken key payload) := by
  intro body sig cut _ _
  obtain ⟨-, rfl⟩ := Prod.mk.inj (Option.some.inj ((splitLast_signToken key payload).symm.trans cut))
  exact ascii_encodeUrl _

omit [DecidableEq K] in
theorem carries_signToken (lawful : s.Lawful) {keys : Keys K} {key : K} (mem : key ∈ keys) (payload : J) :
    Carries s keys (s.signToken key payload) payload := by
  have read : Base64.read (String.ofList (Base64.encodeUrl (s.stringify payload))) = s.stringify payload :=
    Base64.read_encodeUrl _
  refine ⟨key, mem, Base64.encodeUrl (s.stringify payload), fun empty => ?_, rfl, ?_⟩
  · rw [empty] at read
    have some_ := lawful.parse_stringify payload
    rw [← read] at some_
    exact nomatch lawful.parse_nil.symm.trans some_
  · rw [read]
    exact lawful.parse_stringify payload

/-- What a session is for. -/
def Session (service : SessionService J) (payload : J) (user : SessionUser) (ageSec : ℤ) : Prop :=
  ∃ uid, (service.payload payload).uid = some uid ∧ uid ≠ "" ∧
    ageSec = service.nowMs / 1000 - (service.payload payload).iat.getD 0 ∧
    ageSec ≤ (service.sessionTtlMinutes : ℤ) * 60 ∧
    service.findUnique uid = some user ∧ (service.payload payload).v = some user.sessionVersion ∧
    user.disabled = false

omit [DecidableEq K] in
theorem sessionOf_eq_some {service : SessionService J} {json : J} {user : SessionUser} {ageSec : ℤ} :
    sessionOf service json = some (user, ageSec) ↔ Session service json user ageSec := by
  rw [sessionOf, Session]
  cases (service.payload json).uid with
  | none => simp
  | some uid =>
    by_cases empty : uid = ""
    · simp [empty]
    by_cases old : (service.sessionTtlMinutes : ℤ) * 60 <
        service.nowMs / 1000 - (service.payload json).iat.getD 0
    · simp only [empty, if_false, old, if_true]
      constructor
      · exact fun is => (nomatch is)
      · rintro ⟨uid, -, -, rfl, young, -⟩
        exact absurd old (Int.not_lt.mpr young)
    have young := Int.not_lt.mp old
    cases found : service.findUnique uid with
    | none => simp [empty, old, found]
    | some row =>
      simp only [empty, if_false, old, found]
      by_cases version : some row.sessionVersion = (service.payload json).v
      · cases disabled : row.disabled with
        | true =>
          simp only [version, ne_eq, not_true, if_false, if_true]
          constructor
          · exact fun is => (nomatch is)
          · rintro ⟨uid', is, -, -, -, here, -, enabled⟩
            obtain rfl := Option.some.inj is
            obtain rfl := Option.some.inj (found.symm.trans here)
            exact nomatch disabled.symm.trans enabled
        | false =>
          simp only [version, ne_eq, not_true, if_false]
          constructor
          · intro is
            obtain ⟨rfl, rfl⟩ := Prod.mk.inj (Option.some.inj is)
            exact ⟨uid, rfl, empty, rfl, young, found, version.symm, disabled⟩
          · rintro ⟨uid', is, -, rfl, -, here, -, -⟩
            obtain rfl := Option.some.inj is
            obtain rfl := Option.some.inj (found.symm.trans here)
            rfl
      · simp only [version, ne_eq, not_false_eq_true, if_true]
        constructor
        · exact fun is => (nomatch is)
        · rintro ⟨uid', is, -, -, -, here, same, -⟩
          obtain rfl := Option.some.inj is
          obtain rfl := Option.some.inj (found.symm.trans here)
          exact absurd same.symm version

/-- A request is answered: without a throw, and with a user exactly where its cookie carries a
session of theirs. -/
def Answers (s : Signing K J) (service : SessionService J) (keys : Keys K)
    (header : Option (List Char)) : Prop :=
  ∃ result, sessionFromRequest s service keys header = .ok result ∧
    ∀ user ageSec, result = some (user, ageSec) ↔
      ∃ token payload, readCookie header SESSION_COOKIE = some token ∧ Carries s keys token payload ∧
        Session service payload user ageSec

theorem sessionFromRequest_spec (service : SessionService J) (keys : Keys K)
    {header : Option (List Char)}
    (plain : ∀ token, readCookie header SESSION_COOKIE = some token → PlainSignature token) :
    Answers s service keys header := by
  unfold Answers
  rw [sessionFromRequest]
  cases cookie : readCookie header SESSION_COOKIE with
  | none => exact ⟨none, rfl, by simp⟩
  | some token =>
    by_cases empty : token = []
    · refine ⟨none, if_pos empty, fun user ageSec => ⟨fun is => (nomatch is), ?_⟩⟩
      rintro ⟨token', payload, is, ⟨key, -, body, -, text, -⟩, -⟩
      rw [← Option.some.inj is, empty] at text
      exact absurd text.symm (List.append_ne_nil_of_right_ne_nil _ (List.cons_ne_nil _ _))
    obtain ⟨read, verified, carries⟩ := verifyToken_spec s keys (plain token cookie)
    simp only [if_neg empty, verified]
    cases read with
    | none =>
      refine ⟨none, rfl, fun user ageSec => ⟨fun is => (nomatch is), ?_⟩⟩
      rintro ⟨token', payload, is, carried, -⟩
      rw [← Option.some.inj is] at carried
      exact nomatch (carries payload).mpr carried
    | some json =>
      refine ⟨sessionOf service json, rfl, fun user ageSec => ?_⟩
      rw [sessionOf_eq_some]
      constructor
      · intro session
        exact ⟨token, json, rfl, (carries json).mp rfl, session⟩
      · rintro ⟨token', payload, is, carried, session⟩
        rw [← Option.some.inj is] at carried
        obtain rfl := Option.some.inj ((carries payload).mpr carried)
        exact session

variable (s) in
theorem answers_iff (service : SessionService J) (keys : Keys K) (header : Option (List Char)) :
    Answers s service keys header ↔
      ∀ token, readCookie header SESSION_COOKIE = some token → PlainSignature token := by
  refine ⟨?_, sessionFromRequest_spec service keys⟩
  rintro ⟨result, answered, -⟩ token cookie
  by_contra plain
  have some_ : token ≠ [] := by
    rintro rfl
    exact plain fun body sig cut => nomatch cut
  rw [sessionFromRequest, cookie] at answered
  simp only [if_neg some_, verifyToken_throws s keys plain] at answered
  exact nomatch answered

/-- **A token is read exactly as it was signed**, under any of the keys, if and only if its last part
is not 43 code units with a letter outside ASCII; its age is asked of a session. -/
theorem tokens_read (lawful : s.Lawful) (service : SessionService J) (keys : Keys K) :
    (∀ token, Reads s keys token ↔ PlainSignature token) ∧
    (∀ key ∈ keys, ∀ payload, verifyToken s keys (s.signToken key payload) = .ok (some payload)) ∧
    ∀ header, Answers s service keys header ↔
      ∀ token, readCookie header SESSION_COOKIE = some token → PlainSignature token := by
  refine ⟨reads_iff s keys, fun key mem payload => ?_, answers_iff s service keys⟩
  obtain ⟨result, verified, carries⟩ :=
    verifyToken_spec s keys (plainSignature_signToken key payload)
  rw [verified, (carries payload).mpr (carries_signToken lawful mem payload)]

namespace Rotated

/-! ## After the key was changed -/

/-- HMAC under the master keys of 32 bytes `1` and of 32 bytes `2`, of the one body that is signed here;
and the JSON `{}`. -/
def signing : Signing Bool Unit where
  digest key body :=
    if body = ['e', '3', '0'] then
      if key then
        ⟨[134, 253, 120, 164, 226, 72, 139, 3, 69, 184, 188, 44, 118, 197, 207, 245, 247, 96, 102, 249, 216,
          67, 0, 187, 185, 116, 51, 34, 177, 250, 97, 149], rfl⟩
      else
        ⟨[181, 196, 30, 85, 242, 69, 174, 9, 115, 27, 82, 246, 129, 156, 116, 248, 152, 177, 73, 114, 200,
          205, 51, 192, 41, 68, 84, 131, 114, 218, 163, 4], rfl⟩
    else ⟨List.replicate 32 0, rfl⟩
  stringify _ := [123, 125]
  parse bytes := if bytes = [123, 125] then some () else none

theorem signing_lawful : signing.Lawful where
  parse_stringify _ := rfl
  parse_nil := rfl

/-- The second key has taken the place of the first. -/
def keys : Keys Bool := { current := true, configured := [false] }

def service : SessionService Unit where
  payload _ := ⟨none, none, none⟩
  sessionTtlMinutes := 15
  findUnique _ := none
  nowMs := 0

/-- A token of the key before is still read… -/
theorem previous_token_read : verifyToken signing keys (signing.signToken false ()) = .ok (some ()) :=
  (tokens_read signing_lawful service keys).2.1 false (Or.inr (by decide)) ()

/-- A text of 43 letters outside ASCII behind a dot. -/
def foreignLetters : List Char := 'a' :: '.' :: List.replicate 43 'é'

theorem splitLast_foreignLetters :
    splitLast foreignLetters = some (['a'], List.replicate 43 'é') := by decide

/-- It makes the comparison throw, where no key has been changed. -/
theorem foreignLetters_throws :
    ¬ ∀ (s : Signing Bool Unit) (keys : Keys Bool) (token : List Char),
      ∃ result, verifyToken s keys token = .ok result ∧
        ∀ payload, result = some payload ↔ token = s.signToken keys.current payload := by
  intro all
  obtain ⟨result, verified, -⟩ := all signing { current := true, configured := [] } foreignLetters
  have thrown : verifyToken signing { current := true, configured := [] } foreignLetters =
      .error .rangeError := by
    refine verifyToken_throws signing _ fun plain => ?_
    have ascii := plain ['a'] _ splitLast_foreignLetters (by decide) (by decide) 'é' (by simp)
    exact absurd ascii (by decide)
  exact nomatch verified.symm.trans thrown

end Rotated

end Syncle.Accounts
