import Mathlib.Data.Bool.AllAny
import Syncle.Lib.Inet

/-!
# Where a bridge may deliver to

Before a bridge posts to a URL, the addresses of its host are looked at: a cloud's metadata service is
always refused, and the addresses of the deployment's own network are in strict mode. The addresses are
told by their texts.
-/

namespace Syncle.Streams

open Syncle.Lib

/-! ## Addresses by their texts -/

/-- `METADATA_ADDRS` -/
def metadataAddrs : List (List Char) :=
  ["169.254.169.254".toList, "fd00:ec2::254".toList, "100.100.100.200".toList]

/-- `Number(part)` of a part without sign, point, exponent and base; none for `NaN`. -/
def number (part : List Char) : Option ℕ :=
  if part.all Char.isDigit then some (Nat.ofDigitChars 10 part 0) else none

def isPrivateV4 (ip : List Char) : Bool :=
  match (ip.splitOn '.').map number with
  | [some a, some b, some _, some _] =>
    a = 10 ∨ a = 127 ∨ (a = 169 ∧ b = 254) ∨ (a = 172 ∧ 16 ≤ b ∧ b ≤ 31) ∨ (a = 192 ∧ b = 168) ∨ a = 0
  | _ => false

def isPrivateV6 (ip : List Char) : Bool :=
  let lower := ip.map Char.toLower
  lower = "::1".toList ∨ lower = "::".toList ∨
    "fe80:".toList.isPrefixOf lower ∨
    "fc".toList.isPrefixOf lower ∨
    "fd".toList.isPrefixOf lower ∨
    "::ffff:127.".toList.isPrefixOf lower ∨
    "::ffff:10.".toList.isPrefixOf lower ∨
    "::ffff:192.168.".toList.isPrefixOf lower ∨
    "::ffff:169.254.".toList.isPrefixOf lower

/-- `isIP(text) === 4` -/
def isV4 (text : List Char) : Bool :=
  match text.splitOn '.' with
  | [a, b, c, d] => [a, b, c, d].all fun part => (List.range 256).any fun n => part = Nat.toDigits 10 n
  | _ => false

def normalizeAddr (ip : List Char) : List Char :=
  let lower := ip.map Char.toLower
  if "::ffff:".toList.isPrefixOf lower ∧ isV4 (lower.drop 7) then lower.drop 7 else lower

/-! ## The guard -/

/-- What the URL parser makes of a host: an address, which it writes in its own way, or any other. -/
inductive Host where
  | literal (addr : Addr)
  | name (text : List Char)

def Host.hostname : Host → List Char
  | .literal (.v4 ip) => dotted ip
  | .literal (.v6 ip) => '[' :: (hexText ip ++ [']'])
  | .name text => text

/-- `hostname.replace(/^\[|\]$/g, '')` -/
def stripBrackets (hostname : List Char) : List Char :=
  let rest := if hostname.head? = some '[' then hostname.tail else hostname
  if rest.getLast? = some ']' then rest.dropLast else rest

structure Network where
  /-- `new URL(rawUrl)` -/
  hostOf : String → Option Host
  /-- none where the name service fails -/
  lookup : List Char → Option (List Addr)

local instance lawful_addr : LawfulBEq (List Char) := inferInstance

def refusedAsMetadata (raw : List Char) : Bool := normalizeAddr raw ∈ metadataAddrs

def refusedAsPrivate (raw : List Char) : Bool :=
  isPrivateV4 (normalizeAddr raw) || isPrivateV6 (normalizeAddr raw)

/-- The check of one address; the error is the message of a `BadRequestError`. -/
def checkAddr (blockPrivateDestinations : Bool) (raw : List Char) : Except String Unit :=
  if refusedAsMetadata raw then
    .error "Destination resolves to a cloud metadata endpoint, which is not allowed."
  else if blockPrivateDestinations && refusedAsPrivate raw then
    .error ("Destination resolves to a private address (" ++ String.ofList (normalizeAddr raw) ++
      "); this deployment only allows public destinations (SYNCLE_BLOCK_PRIVATE_DESTINATIONS).")
  else .ok ()

def assertAllowedDestination (net : Network) (blockPrivateDestinations : Bool) (rawUrl : String) :
    Except String Unit :=
  match net.hostOf rawUrl with
  | none => .error "Destination is not a valid URL."
  | some (.literal addr) =>
    [stripBrackets (Host.literal addr).hostname].forM (checkAddr blockPrivateDestinations)
  | some (.name text) =>
    match net.lookup (stripBrackets text) with
    -- the request itself fails later
    | none => .ok ()
    | some resolved => (resolved.map Addr.lookupText).forM (checkAddr blockPrivateDestinations)

/-! ## What is internal -/

def Metadata4 (ip : V4) : Prop := ip = ⟨169, 254, 169, 254⟩ ∨ ip = ⟨100, 100, 100, 200⟩

/-- Unspecified, loopback, private or link-local. -/
def Private4 (ip : V4) : Prop :=
  ip = ⟨0, 0, 0, 0⟩ ∨ ip.a = 127 ∨ ip.a = 10 ∨ (ip.a = 172 ∧ 16 ≤ ip.b ∧ ip.b ≤ 31) ∨
    (ip.a = 192 ∧ ip.b = 168) ∨ (ip.a = 169 ∧ ip.b = 254)

def Metadata : Addr → Prop
  | .v4 ip => Metadata4 ip
  | .v6 ip => ip = ⟨0xFD00, 0xEC2, 0, 0, 0, 0, 0, 0x254⟩ ∨ (ip.Mapped ∨ ip.Compatible) ∧ Metadata4 ip.low

/-- Unspecified, loopback, unique-local or link-local, or the address of such a one of version 4. -/
def Private : Addr → Prop
  | .v4 ip => Private4 ip
  | .v6 ip =>
    ip = ⟨0, 0, 0, 0, 0, 0, 0, 0⟩ ∨ ip = ⟨0, 0, 0, 0, 0, 0, 0, 1⟩ ∨
      (0xFC00 ≤ ip.g0 ∧ ip.g0 ≤ 0xFDFF) ∨ (0xFE80 ≤ ip.g0 ∧ ip.g0 ≤ 0xFEBF) ∨
      (ip.Mapped ∨ ip.Compatible) ∧ Private4 ip.low

/-- What the guard is there to refuse. -/
def Internal (strict : Bool) (addr : Addr) : Prop := Metadata addr ∨ strict = true ∧ Private addr

/-! ## What is missed -/

/-- Who wrote the text of an address. -/
inductive Writer where
  | urlParser
  | nameService
  deriving DecidableEq

def Writer.text : Writer → Addr → List Char
  | .urlParser => Addr.urlText
  | .nameService => Addr.lookupText

/-- An internal address in a spelling that the guard does not know: one of version 4 that the URL
parser wrote as hexadecimal groups, one in the old form without `ffff` from either, or a link-local
one that does not begin with `fe80`. -/
def Missed (writer : Writer) (strict : Bool) : Addr → Prop
  | .v4 _ => False
  | .v6 ip =>
    (ip.Mapped ∧ writer = .urlParser ∨ ip.Compatible ∧ ip.g6 ≠ 0) ∧
        (Metadata4 ip.low ∨ strict = true ∧ Private4 ip.low) ∨
      strict = true ∧ 0xFE81 ≤ ip.g0 ∧ ip.g0 ≤ 0xFEBF

theorem Missed.internal {writer : Writer} {strict : Bool} {addr : Addr}
    (missed : Missed writer strict addr) : Internal strict addr := by
  cases addr with
  | v4 ip => exact missed.elim
  | v6 ip =>
    rcases missed with ⟨carries, low⟩ | ⟨strict, least, most⟩
    · have carries : ip.Mapped ∨ ip.Compatible := carries.imp And.left And.left
      rcases low with metadata | ⟨strict, private_⟩
      · exact Or.inl (Or.inr ⟨carries, metadata⟩)
      · exact Or.inr ⟨strict, Or.inr (Or.inr (Or.inr (Or.inr ⟨carries, private_⟩)))⟩
    · refine Or.inr ⟨strict, Or.inr (Or.inr (Or.inr (Or.inl ⟨?_, most⟩)))⟩
      exact Nat.le_trans (by decide) least

/-! ## Reading a text back -/

theorem startsWith_iff {front text : List Char} :
    front.isPrefixOf text = true ↔ ∃ rest, text = front ++ rest := by
  rw [List.isPrefixOf_iff_prefix]
  exact ⟨fun ⟨rest, is⟩ => ⟨rest, is.symm⟩, fun ⟨rest, is⟩ => ⟨rest, is.symm⟩⟩

theorem toLower_of_letters {text : List Char} (letters : ∀ c ∈ text, c ∈ '.' :: addressLetters) :
    text.map Char.toLower = text := by
  have each : ∀ c ∈ '.' :: addressLetters, c.toLower = c :=
    List.all_iff_forall_prop.mp rfl
  calc text.map Char.toLower = text.map id := List.map_congr_left fun c mem => each c (letters c mem)
    _ = text := List.map_id text

theorem letters_hexText (ip : V6) : ∀ c ∈ hexText ip, c ∈ '.' :: addressLetters :=
  fun _ mem => List.mem_cons_of_mem _ (mem_hexText mem)

theorem letters_dotted (ip : V4) : ∀ c ∈ dotted ip, c = '.' ∨ c.isDigit = true := by
  intro c mem
  have digit {n : ℕ} (mem : c ∈ Nat.toDigits 10 n) : c.isDigit = true :=
    Nat.isDigit_of_mem_toDigits (by decide) (by decide) mem
  simp only [dotted, List.mem_append, List.mem_cons] at mem
  rcases mem with a | rfl | b | rfl | c | rfl | d
  · exact Or.inr (digit a)
  · exact Or.inl rfl
  · exact Or.inr (digit b)
  · exact Or.inl rfl
  · exact Or.inr (digit c)
  · exact Or.inl rfl
  · exact Or.inr (digit d)

theorem digit_mem_letters {c : Char} (digit : c.isDigit = true) : c ∈ addressLetters := by
  have bounds : 48 ≤ c.toNat ∧ c.toNat ≤ 57 := by
    simpa [Char.isDigit, Char.le_def, UInt32.le_iff_toNat_le] using digit
  have each : ∀ n < 58, 48 ≤ n → Char.ofNat n ∈ addressLetters := by decide
  simpa using each c.toNat (by omega) bounds.1

theorem number_toDigits {n : ℕ} : number (Nat.toDigits 10 n) = some n := by
  have digits : (Nat.toDigits 10 n).all Char.isDigit = true :=
    List.all_eq_true.mpr fun c mem => Nat.isDigit_of_mem_toDigits (by decide) (by decide) mem
  rw [number, if_pos digits, Nat.ofDigitChars_ten_toDigits]

theorem isV4_dotted (ip : V4) : isV4 (dotted ip) = true := by
  have split := splitOn_dotted [] List.not_mem_nil ip
  have byte (n : Fin 256) : ((List.range 256).any fun m =>
      decide (Nat.toDigits 10 n = Nat.toDigits 10 m)) = true :=
    List.any_eq_true.mpr ⟨n, List.mem_range.mpr n.isLt, decide_eq_true rfl⟩
  rw [isV4, ← List.nil_append (dotted ip), split]
  simp only [List.nil_append, List.all_cons, List.all_nil, byte, Bool.and_self]

theorem isV4_of_not_dot {text : List Char} (none_ : '.' ∉ text) : isV4 text = false := by
  rw [isV4, List.splitOn_eq_singleton none_]

theorem isPrivateV4_dotted (ip : V4) :
    isPrivateV4 (dotted ip) = true ↔
      (ip.a : ℕ) = 10 ∨ (ip.a : ℕ) = 127 ∨ ((ip.a : ℕ) = 169 ∧ (ip.b : ℕ) = 254) ∨
        ((ip.a : ℕ) = 172 ∧ 16 ≤ (ip.b : ℕ) ∧ (ip.b : ℕ) ≤ 31) ∨
        ((ip.a : ℕ) = 192 ∧ (ip.b : ℕ) = 168) ∨ (ip.a : ℕ) = 0 := by
  have split := splitOn_dotted [] List.not_mem_nil ip
  rw [isPrivateV4, ← List.nil_append (dotted ip), split]
  simp only [List.nil_append, List.map_cons, List.map_nil, number_toDigits, decide_eq_true_eq]

theorem isPrivateV4_of_not_dot {text : List Char} (none_ : '.' ∉ text) : isPrivateV4 text = false := by
  rw [isPrivateV4, List.splitOn_eq_singleton none_, List.map_cons, List.map_nil]
  cases number text <;> rfl

/-- A text that is not version 4 after `::ffff:` is left as it is. -/
theorem normalizeAddr_of_not_v4 {text : List Char}
    (letters : ∀ c ∈ text, c ∈ '.' :: addressLetters)
    (other : "::ffff:".toList.isPrefixOf text = true → isV4 (text.drop 7) = false) :
    normalizeAddr text = text := by
  simp only [normalizeAddr, toLower_of_letters letters]
  refine if_neg fun both => ?_
  rw [other both.1] at both
  exact absurd both.2 Bool.false_ne_true

theorem normalizeAddr_hexText (ip : V6) : normalizeAddr (hexText ip) = hexText ip :=
  normalizeAddr_of_not_v4 (letters_hexText ip) fun _ =>
    isV4_of_not_dot fun mem => dot_not_mem_hexText (List.mem_of_mem_drop mem)

theorem letters_of_dotted (ip : V4) : ∀ c ∈ dotted ip, c ∈ '.' :: addressLetters := by
  intro c mem
  rcases letters_dotted ip c mem with rfl | digit
  · exact List.mem_cons_self
  · exact List.mem_cons_of_mem _ (digit_mem_letters digit)

theorem not_mem_dotted (ip : V4) {c : Char} (other : c ≠ '.') (letter : c.isDigit = false) :
    c ∉ dotted ip := by
  intro mem
  rcases letters_dotted ip c mem with is | digit
  · exact other is
  · rw [letter] at digit
    exact absurd digit Bool.false_ne_true

theorem normalizeAddr_dotted (ip : V4) : normalizeAddr (dotted ip) = dotted ip := by
  refine normalizeAddr_of_not_v4 (letters_of_dotted ip) fun begins => ?_
  obtain ⟨rest, is⟩ := startsWith_iff.mp begins
  have mem : ':' ∈ dotted ip := by
    rw [is]
    exact List.mem_cons_self
  exact absurd mem (not_mem_dotted ip (by decide) (by decide))

theorem normalizeAddr_mapped (ip : V4) : normalizeAddr ("::ffff:".toList ++ dotted ip) = dotted ip := by
  have letters : ∀ c ∈ "::ffff:".toList ++ dotted ip, c ∈ '.' :: addressLetters := by
    intro c mem
    have front : ∀ c ∈ "::ffff:".toList, c ∈ '.' :: addressLetters :=
      List.all_iff_forall_prop.mp rfl
    exact (List.mem_append.mp mem).elim (front c) (letters_of_dotted ip c)
  have begins : "::ffff:".toList.isPrefixOf ("::ffff:".toList ++ dotted ip) = true :=
    startsWith_iff.mpr ⟨_, rfl⟩
  have behind : ("::ffff:".toList ++ dotted ip).drop 7 = dotted ip := rfl
  simp only [normalizeAddr, toLower_of_letters letters]
  rw [behind, if_pos ⟨begins, isV4_dotted ip⟩]

/-! ## What is refused -/

/-- The check of one address refuses it. -/
def refused (strict : Bool) (raw : List Char) : Bool :=
  refusedAsMetadata raw || strict && refusedAsPrivate raw

theorem checkAddr_eq_ok {strict : Bool} {raw : List Char} :
    checkAddr strict raw = .ok () ↔ refused strict raw = false := by
  rw [checkAddr, refused]
  cases refusedAsMetadata raw with
  | true => simp
  | false => cases strict && refusedAsPrivate raw <;> simp

theorem toDigits_group {n : ℕ} (least : 0x1000 ≤ n) (most : n < 0x10000) :
    Nat.toDigits 16 n = [Nat.digitChar (n / 4096), Nat.digitChar (n / 256 % 16),
      Nat.digitChar (n / 16 % 16), Nat.digitChar (n % 16)] := by
  rw [Nat.toDigits_of_base_le (by decide) (by omega), Nat.toDigits_of_base_le (by decide) (by omega),
    Nat.toDigits_of_base_le (by decide) (by omega), Nat.toDigits_of_lt_base (by omega)]
  simp only [List.cons_append, List.nil_append, Nat.div_div_eq_div_mul]

theorem refused_of_metadata4 {ip : V4} (metadata : Metadata4 ip) {strict : Bool} {raw : List Char}
    (is : normalizeAddr raw = dotted ip) : refused strict raw = true := by
  have found : refusedAsMetadata raw = true := by
    rw [refusedAsMetadata, is]
    rcases metadata with rfl | rfl <;> decide
  rw [refused, found, Bool.true_or]

theorem refused_of_private {raw : List Char} (private_ : refusedAsPrivate raw = true) :
    refused true raw = true := by
  rw [refused, private_, Bool.and_true, Bool.or_true]

theorem refused_of_private4 {ip : V4} (private_ : Private4 ip) {raw : List Char}
    (is : normalizeAddr raw = dotted ip) : refused true raw = true := by
  refine refused_of_private ?_
  rw [refusedAsPrivate, is, Bool.or_eq_true, isPrivateV4_dotted]
  refine Or.inl ?_
  simp only [Private4, Fin.ext_iff, Fin.le_def] at private_
  rcases private_ with rfl | h | h | h | h | h
  · exact Or.inr (Or.inr (Or.inr (Or.inr (Or.inr rfl))))
  · exact Or.inr (Or.inl h)
  · exact Or.inl h
  · exact Or.inr (Or.inr (Or.inr (Or.inl h)))
  · exact Or.inr (Or.inr (Or.inr (Or.inr (Or.inl h))))
  · exact Or.inr (Or.inr (Or.inl h))

/-- The text begins with the first group. -/
theorem text_of_pos {writer : Writer} {ip : V6} (pos : ip.g0 ≠ 0) :
    writer.text (.v6 ip) = hexText ip := by
  cases writer with
  | urlParser => rfl
  | nameService =>
    have mapped : ¬ ip.Mapped := fun is => pos is.1
    have compatible : ¬ ip.Compatible := fun is => pos is.1
    show Addr.lookupText (.v6 ip) = _
    rw [Addr.lookupText, if_neg mapped, if_neg fun both => compatible both.1]

theorem refused_of_uniqueLocal {ip : V6} (least : 0xFC00 ≤ ip.g0) (most : ip.g0 ≤ 0xFDFF)
    {raw : List Char} (is : normalizeAddr raw = hexText ip) : refused true raw = true := by
  have least : 0xFC00 ≤ (ip.g0 : ℕ) := least
  have most : (ip.g0 : ℕ) ≤ 0xFDFF := most
  have pos : ip.g0 ≠ 0 := fun zero => by simp [zero] at least
  obtain ⟨tail, text⟩ := hexText_of_pos pos
  have first : (ip.g0 : ℕ) / 4096 = 15 := by omega
  have second : (ip.g0 : ℕ) / 256 % 16 = 12 ∨ (ip.g0 : ℕ) / 256 % 16 = 13 := by omega
  rw [toDigits_group (by omega) (by omega), first] at text
  refine refused_of_private ?_
  rw [refusedAsPrivate, is, Bool.or_eq_true]
  refine Or.inr ?_
  simp only [isPrivateV6, toLower_of_letters (letters_hexText ip), decide_eq_true_eq, startsWith_iff]
  rcases second with second | second <;> rw [second] at text
  · exact Or.inr (Or.inr (Or.inr (Or.inl ⟨_, text⟩)))
  · exact Or.inr (Or.inr (Or.inr (Or.inr (Or.inl ⟨_, text⟩))))

theorem refused_of_linkLocal {ip : V6} (first : ip.g0 = 0xFE80) {raw : List Char}
    (is : normalizeAddr raw = hexText ip) : refused true raw = true := by
  have pos : ip.g0 ≠ 0 := by
    rw [first]
    decide
  obtain ⟨tail, text⟩ := hexText_of_pos pos
  rw [first] at text
  refine refused_of_private ?_
  rw [refusedAsPrivate, is, Bool.or_eq_true]
  refine Or.inr ?_
  simp only [isPrivateV6, toLower_of_letters (letters_hexText ip), decide_eq_true_eq, startsWith_iff]
  exact Or.inr (Or.inr (Or.inl ⟨_, text⟩))

theorem normalizeAddr_text {writer : Writer} (ip : V4) :
    normalizeAddr (writer.text (.v4 ip)) = dotted ip := by
  cases writer <;> exact normalizeAddr_dotted ip

theorem refused_of_low {ip : V4} {strict : Bool} (low : Metadata4 ip ∨ strict = true ∧ Private4 ip)
    {raw : List Char} (is : normalizeAddr raw = dotted ip) : refused strict raw = true := by
  rcases low with metadata | ⟨rfl, private_⟩
  · exact refused_of_metadata4 metadata is
  · exact refused_of_private4 private_ is

theorem normalizeAddr_nameService {ip : V6} (mapped : ip.Mapped) :
    normalizeAddr (Writer.nameService.text (.v6 ip)) = dotted ip.low := by
  show normalizeAddr (Addr.lookupText (.v6 ip)) = _
  rw [Addr.lookupText, if_pos mapped]
  exact normalizeAddr_mapped ip.low

/-- Where the upper half of an internal address is zero, so is the lower. -/
theorem eq_unspecified {ip : V6} (compatible : ip.Compatible) (zero : ip.g6 = 0) {strict : Bool}
    (low : Metadata4 ip.low ∨ strict = true ∧ Private4 ip.low) :
    strict = true ∧ ip = ⟨0, 0, 0, 0, 0, 0, 0, 0⟩ := by
  have first : (ip.low.a : ℕ) = 0 := by simp [V6.low, zero]
  rcases low with (is | is) | ⟨strict, private_⟩
  · rw [is] at first
    exact absurd first (by decide)
  · rw [is] at first
    exact absurd first (by decide)
  · refine ⟨strict, ?_⟩
    simp only [Private4, Fin.ext_iff] at private_
    rcases private_ with is | h | h | ⟨h, -⟩ | ⟨h, -⟩ | ⟨h, -⟩
    · have parts := congrArg (fun v : V4 => ((v.c : ℕ), (v.d : ℕ))) is
      simp only [V6.low, Fin.val_zero, Prod.mk.injEq] at parts
      have last : ip.g7 = 0 := Fin.ext (show (ip.g7 : ℕ) = 0 by omega)
      obtain ⟨h0, h1, h2, h3, h4, h5⟩ := compatible
      cases ip
      simp_all
    all_goals exact absurd (first.symm.trans h) (by decide)

/-- What is internal is refused, unless its spelling is missed. -/
theorem refused_of_internal {writer : Writer} {strict : Bool} {addr : Addr}
    (internal : Internal strict addr) (known : ¬ Missed writer strict addr) :
    refused strict (writer.text addr) = true := by
  cases addr with
  | v4 ip => exact refused_of_low internal (normalizeAddr_text ip)
  | v6 ip =>
    have carried (carries : ip.Mapped ∨ ip.Compatible)
        (low : Metadata4 ip.low ∨ strict = true ∧ Private4 ip.low) :
        refused strict (writer.text (.v6 ip)) = true := by
      rcases carries with mapped | compatible
      · cases writer with
        | urlParser => exact absurd (Or.inl ⟨Or.inl ⟨mapped, rfl⟩, low⟩) known
        | nameService => exact refused_of_low low (normalizeAddr_nameService mapped)
      · have zero : ip.g6 = 0 := by_contra fun pos => known (Or.inl ⟨Or.inr ⟨compatible, pos⟩, low⟩)
        obtain ⟨rfl, rfl⟩ := eq_unspecified compatible zero low
        cases writer <;> decide
    have hex (pos : ip.g0 ≠ 0) : normalizeAddr (writer.text (.v6 ip)) = hexText ip := by
      rw [text_of_pos pos, normalizeAddr_hexText]
    rcases internal with (rfl | ⟨carries, metadata⟩) | ⟨rfl, private_⟩
    · have found : refusedAsMetadata (writer.text (.v6 ⟨0xFD00, 0xEC2, 0, 0, 0, 0, 0, 0x254⟩)) = true := by
        cases writer <;> decide
      rw [refused, found, Bool.true_or]
    · exact carried carries (Or.inl metadata)
    · rcases private_ with rfl | rfl | ⟨least, most⟩ | ⟨least, most⟩ | ⟨carries, private_⟩
      · cases writer <;> decide
      · cases writer <;> decide
      · have pos : ip.g0 ≠ 0 := fun zero => absurd (zero ▸ least) (by decide)
        exact refused_of_uniqueLocal least most (hex pos)
      · have pos : ip.g0 ≠ 0 := fun zero => absurd (zero ▸ least) (by decide)
        have first : ip.g0 = 0xFE80 := by
          by_contra other
          refine known (Or.inr ⟨rfl, ?_, most⟩)
          have least : 0xFE80 ≤ (ip.g0 : ℕ) := least
          have other : (ip.g0 : ℕ) ≠ 0xFE80 := fun is => other (Fin.ext is)
          show 0xFE81 ≤ (ip.g0 : ℕ)
          omega
        exact refused_of_linkLocal first (hex pos)
      · exact carried carries (Or.inr ⟨rfl, private_⟩)

/-! ## What is missed is let through -/

theorem isPrivateV6_colons {more : List Char} (letters : ∀ c ∈ more, c ∈ '.' :: addressLetters)
    (some_ : more ≠ []) (loopback : more ≠ ['1']) (pure_ : '.' ∉ more ∨ 'f' ∉ more) :
    isPrivateV6 (':' :: ':' :: more) = false := by
  have all : ∀ c ∈ ':' :: ':' :: more, c ∈ '.' :: addressLetters := by
    intro c mem
    rcases List.mem_cons.mp mem with rfl | mem
    · decide
    · rcases List.mem_cons.mp mem with rfl | mem
      · decide
      · exact letters c mem
  -- both a dot and an `f` are in what is looked for after `::`
  have none_ {front : List Char} (dot : '.' ∈ front) (f : 'f' ∈ front) :
      ¬ ∃ rest, ':' :: ':' :: more = ':' :: ':' :: front ++ rest := by
    rintro ⟨rest, is⟩
    have parts : more = front ++ rest := (List.cons.inj (List.cons.inj is).2).2
    rw [parts] at pure_
    exact pure_.elim (· (List.mem_append_left _ dot)) (· (List.mem_append_left _ f))
  have apart {c : Char} {front : List Char} (other : c ≠ ':') :
      ¬ ∃ rest, ':' :: ':' :: more = c :: front ++ rest := by
    rintro ⟨rest, is⟩
    exact other (List.cons.inj is).1.symm
  simp only [isPrivateV6, toLower_of_letters all, decide_eq_false_iff_not, startsWith_iff]
  rintro (is | is | is | is | is | is | is | is | is)
  · exact loopback (List.cons.inj (List.cons.inj is).2).2
  · exact some_ (List.cons.inj (List.cons.inj is).2).2
  · exact apart (by decide) is
  · exact apart (by decide) is
  · exact apart (by decide) is
  · exact none_ (by decide) (by decide) is
  · exact none_ (by decide) (by decide) is
  · exact none_ (by decide) (by decide) is
  · exact none_ (by decide) (by decide) is

theorem not_metadata {c : Char} {rest : List Char} {raw : List Char}
    (is : normalizeAddr raw = c :: rest) (other : c ≠ '1' ∧ (c ≠ 'f' ∨ rest.head? = some 'e')) :
    refusedAsMetadata raw = false := by
  rw [refusedAsMetadata, is, decide_eq_false_iff_not]
  intro mem
  simp only [metadataAddrs, List.mem_cons, List.not_mem_nil, or_false] at mem
  rcases mem with is | is | is
  · exact other.1 (List.cons.inj is).1
  · obtain ⟨rfl, rfl⟩ := List.cons.inj is
    exact other.2.elim (fun f => f rfl) (by decide)
  · exact other.1 (List.cons.inj is).1

theorem not_refused {raw : List Char} (metadata : refusedAsMetadata raw = false)
    (v4 : isPrivateV4 (normalizeAddr raw) = false) (v6 : isPrivateV6 (normalizeAddr raw) = false)
    (strict : Bool) : refused strict raw = false := by
  rw [refused, refusedAsPrivate, metadata, v4, v6, Bool.or_self, Bool.and_false, Bool.or_self]

/-- Hexadecimal groups after `::` are none of the texts that are looked for. -/
theorem not_refused_groups {ip : V6} {more : List Char} (text : hexText ip = ':' :: ':' :: more)
    (colon : ':' ∈ more) (strict : Bool) : refused strict (hexText ip) = false := by
  have is := normalizeAddr_hexText ip
  have noDot : '.' ∉ more := fun mem =>
    dot_not_mem_hexText (text ▸ List.mem_cons_of_mem _ (List.mem_cons_of_mem _ mem) : '.' ∈ hexText ip)
  refine not_refused (not_metadata (is.trans text) ⟨by decide, Or.inl (by decide)⟩) ?_ ?_ strict
  · rw [is]
    exact isPrivateV4_of_not_dot dot_not_mem_hexText
  · rw [is, text]
    refine isPrivateV6_colons (fun c mem => ?_) (fun is => ?_) (fun is => ?_) (Or.inl noDot)
    · exact letters_hexText ip c (text ▸ List.mem_cons_of_mem _ (List.mem_cons_of_mem _ mem))
    · rw [is] at colon
      exact absurd colon List.not_mem_nil
    · rw [is] at colon
      exact absurd colon (by decide)

theorem not_refused_dotted (ip : V4) {raw : List Char} (is : raw = ':' :: ':' :: dotted ip)
    (strict : Bool) : refused strict raw = false := by
  have letters : ∀ c ∈ raw, c ∈ '.' :: addressLetters := by
    intro c mem
    rw [is] at mem
    rcases List.mem_cons.mp mem with rfl | mem
    · decide
    · rcases List.mem_cons.mp mem with rfl | mem
      · decide
      · exact letters_of_dotted ip c mem
  have f : 'f' ∉ dotted ip := not_mem_dotted ip (by decide) (by decide)
  have dot : '.' ∈ dotted ip := List.mem_append_right _ List.mem_cons_self
  have same : normalizeAddr raw = raw := by
    refine normalizeAddr_of_not_v4 letters fun begins => ?_
    obtain ⟨rest, begins⟩ := startsWith_iff.mp begins
    rw [is] at begins
    have parts : dotted ip = "ffff:".toList ++ rest := (List.cons.inj (List.cons.inj begins).2).2
    exact absurd (parts ▸ List.mem_cons_self : 'f' ∈ dotted ip) f
  refine not_refused (not_metadata (same.trans is) ⟨by decide, Or.inl (by decide)⟩) ?_ ?_ strict
  · have split : (':' :: ':' :: dotted ip).splitOn '.' = _ := splitOn_dotted [':', ':'] (by decide) ip
    have first : number ([':', ':'] ++ Nat.toDigits 10 ip.a) = none := if_neg (by simp)
    rw [same, is, isPrivateV4, split, List.map_cons, first]
  · rw [same, is]
    refine isPrivateV6_colons (letters_of_dotted ip) (fun is => ?_) (fun is => ?_) (Or.inr f)
    · rw [is] at dot
      exact absurd dot List.not_mem_nil
    · rw [is] at dot
      exact absurd dot (by decide)

theorem not_refused_linkLocal {ip : V6} (least : 0xFE81 ≤ ip.g0) (most : ip.g0 ≤ 0xFEBF)
    {writer : Writer} (strict : Bool) : refused strict (writer.text (.v6 ip)) = false := by
  have least : 0xFE81 ≤ (ip.g0 : ℕ) := least
  have most : (ip.g0 : ℕ) ≤ 0xFEBF := most
  have pos : ip.g0 ≠ 0 := fun zero => by simp [zero] at least
  obtain ⟨tail, text⟩ := hexText_of_pos pos
  have first : (ip.g0 : ℕ) / 4096 = 15 := by omega
  have second : (ip.g0 : ℕ) / 256 % 16 = 14 := by omega
  rw [toDigits_group (by omega) (by omega), first, second] at text
  have is : normalizeAddr (writer.text (.v6 ip)) = hexText ip := by
    rw [text_of_pos pos, normalizeAddr_hexText]
  refine not_refused (not_metadata (is.trans text) ⟨by decide, Or.inr rfl⟩) ?_ ?_ strict
  · rw [is]
    exact isPrivateV4_of_not_dot dot_not_mem_hexText
  · rw [is]
    have eight : ∀ d < 16, Nat.digitChar d = '8' → d = 8 := by decide
    have zero : ∀ d < 16, Nat.digitChar d = '0' → d = 0 := by decide
    have colons {front : List Char} : ¬ ∃ rest, hexText ip = ':' :: front ++ rest := by
      rintro ⟨rest, is⟩
      exact absurd (List.cons.inj (text.symm.trans is)).1 (by decide)
    have local_ {c : Char} (other : 'e' ≠ c) : ¬ ∃ rest, hexText ip = ['f', c] ++ rest := by
      rintro ⟨rest, is⟩
      exact other (List.cons.inj (List.cons.inj (text.symm.trans is)).2).1
    simp only [isPrivateV6, toLower_of_letters (letters_hexText ip), decide_eq_false_iff_not,
      startsWith_iff]
    rintro (is | is | is | is | is | is | is | is | is)
    · exact absurd (List.cons.inj (text.symm.trans is)).1 (by decide)
    · exact absurd (List.cons.inj (text.symm.trans is)).1 (by decide)
    · obtain ⟨rest, is⟩ := is
      have parts := (List.cons.inj (List.cons.inj (text.symm.trans is)).2).2
      have third := eight _ (by omega) (List.cons.inj parts).1
      have fourth := zero _ (by omega) (List.cons.inj (List.cons.inj parts).2).1
      omega
    · exact local_ (by decide) is
    · exact local_ (by decide) is
    · exact colons is
    · exact colons is
    · exact colons is
    · exact colons is

theorem not_refused_of_missed {writer : Writer} {strict : Bool} {addr : Addr}
    (missed : Missed writer strict addr) : refused strict (writer.text addr) = false := by
  cases addr with
  | v4 ip => exact missed.elim
  | v6 ip =>
    rcases missed with ⟨⟨mapped, rfl⟩ | ⟨compatible, pos⟩, -⟩ | ⟨-, least, most⟩
    · show refused strict (hexText ip) = false
      exact not_refused_groups (hexText_mapped mapped) (by simp) strict
    · cases writer with
      | urlParser =>
        show refused strict (hexText ip) = false
        exact not_refused_groups (hexText_compatible compatible pos) (by simp) strict
      | nameService =>
        refine not_refused_dotted ip.low ?_ strict
        have mapped : ¬ ip.Mapped := by
          intro mapped
          have both := compatible.2.2.2.2.2.symm.trans mapped.2.2.2.2.2
          exact absurd both (by decide)
        show Addr.lookupText (.v6 ip) = _
        rw [Addr.lookupText, if_neg mapped, if_pos ⟨compatible, Or.inl pos⟩]
    · exact not_refused_linkLocal least most strict

/-- **The internal addresses that pass are those that are missed, and no others.** -/
theorem passes_iff_missed {writer : Writer} {strict : Bool} {addr : Addr} :
    (Internal strict addr ∧ refused strict (writer.text addr) = false) ↔
      Missed writer strict addr := by
  refine ⟨fun ⟨internal, passes⟩ => ?_, fun missed =>
    ⟨missed.internal, not_refused_of_missed missed⟩⟩
  by_contra known
  rw [refused_of_internal internal known] at passes
  cases passes

/-! ## The guard, URL by URL -/

/-- The addresses of a URL, and who wrote them. -/
def destination (net : Network) (rawUrl : String) : Writer × List Addr :=
  match net.hostOf rawUrl with
  | none => (.urlParser, [])
  | some (.literal addr) => (.urlParser, [addr])
  | some (.name text) => (.nameService, (net.lookup (stripBrackets text)).getD [])

def addresses (net : Network) (rawUrl : String) : List Addr := (destination net rawUrl).2

/-- The texts that the guard looks at. -/
def addrs (net : Network) (rawUrl : String) : List (List Char) :=
  (addresses net rawUrl).map (destination net rawUrl).1.text

theorem stripBrackets_hostname (addr : Addr) : stripBrackets (Host.literal addr).hostname = addr.urlText := by
  cases addr with
  | v4 ip =>
    have open_ : (dotted ip).head? ≠ some '[' := fun is =>
      not_mem_dotted ip (by decide) (by decide) (List.mem_of_mem_head? is)
    have close : (dotted ip).getLast? ≠ some ']' := fun is =>
      not_mem_dotted ip (by decide) (by decide) (List.mem_of_getLast? is)
    show stripBrackets (dotted ip) = dotted ip
    simp only [stripBrackets, if_neg open_, if_neg close]
  | v6 ip =>
    show stripBrackets ('[' :: (hexText ip ++ [']'])) = hexText ip
    simp [stripBrackets]

theorem forM_checkAddr {strict : Bool} {raws : List (List Char)} :
    raws.forM (checkAddr strict) = .ok () ↔ ∀ raw ∈ raws, refused strict raw = false := by
  induction raws with
  | nil => exact ⟨fun _ _ mem => absurd mem List.not_mem_nil, fun _ => rfl⟩
  | cons raw raws ih =>
    have first : (raw :: raws).forM (checkAddr strict) =
        (checkAddr strict raw >>= fun _ => raws.forM (checkAddr strict)) := rfl
    rw [first, List.forall_mem_cons, ← ih, ← checkAddr_eq_ok]
    cases checkAddr strict raw with
    | error message => exact ⟨fun h => (nomatch h), fun h => (nomatch h.1)⟩
    | ok _ => exact ⟨fun h => ⟨rfl, h⟩, fun h => h.2⟩

theorem accepted_iff {net : Network} {strict : Bool} {rawUrl : String} :
    assertAllowedDestination net strict rawUrl = .ok () ↔
      net.hostOf rawUrl ≠ none ∧ ∀ raw ∈ addrs net rawUrl, refused strict raw = false := by
  rw [assertAllowedDestination, addrs, addresses, destination]
  cases net.hostOf rawUrl with
  | none => exact ⟨fun h => (nomatch h), fun h => absurd rfl h.1⟩
  | some host =>
    cases host with
    | literal addr =>
      simp only [stripBrackets_hostname, forM_checkAddr]
      exact ⟨fun h => ⟨Option.some_ne_none _, h⟩, fun h => h.2⟩
    | name text =>
      cases resolved : net.lookup (stripBrackets text) with
      | none => simp [resolved]
      | some found =>
        simp only [resolved, forM_checkAddr, Option.getD_some]
        exact ⟨fun h => ⟨Option.some_ne_none _, h⟩, fun h => h.2⟩

/-- What is let through is not internal, for the URLs none of whose addresses is missed, or of which
another is refused. -/
theorem letsThrough_iff (net : Network) (strict : Bool) (rawUrl : String) :
    (assertAllowedDestination net strict rawUrl = .ok () →
        ∀ addr ∈ addresses net rawUrl, ¬ Internal strict addr) ↔
      ((∃ addr ∈ addresses net rawUrl, Missed (destination net rawUrl).1 strict addr) →
        ∃ raw ∈ addrs net rawUrl, refused strict raw = true) := by
  constructor
  · intro letsThrough ⟨addr, mem, missed⟩
    by_contra none_
    have parsed : net.hostOf rawUrl ≠ none := by
      intro failed
      rw [addresses, destination, failed] at mem
      exact absurd mem List.not_mem_nil
    refine letsThrough (accepted_iff.mpr ⟨parsed, fun raw mem => ?_⟩) addr mem missed.internal
    exact Bool.eq_false_iff.mpr fun found => none_ ⟨raw, mem, found⟩
  · intro another accepted addr mem internal
    have passes := (accepted_iff.mp accepted).2
    by_cases missed : Missed (destination net rawUrl).1 strict addr
    · obtain ⟨raw, mem, found⟩ := another ⟨addr, mem, missed⟩
      rw [passes raw mem] at found
      exact absurd found Bool.false_ne_true
    · have found := refused_of_internal internal missed
      rw [passes _ (List.mem_map_of_mem mem)] at found
      exact absurd found Bool.false_ne_true

namespace Mapped

/-- `http://[::ffff:169.254.169.254]/`, as the URL parser reads it. -/
def net : Network where
  hostOf rawUrl :=
    if rawUrl = "http://[::ffff:169.254.169.254]/" then
      some (.literal (.v6 ⟨0, 0, 0, 0, 0, 0xFFFF, 0xA9FE, 0xA9FE⟩))
    else none
  lookup _ := none

/-- A metadata address in brackets is let through. -/
theorem metadata_let_through :
    ¬ ∀ (net : Network) (strict : Bool) (rawUrl : String),
      assertAllowedDestination net strict rawUrl = .ok () →
        ∀ addr ∈ addresses net rawUrl, ¬ Internal strict addr := by
  intro all
  refine all net false "http://[::ffff:169.254.169.254]/" rfl
    (.v6 ⟨0, 0, 0, 0, 0, 0xFFFF, 0xA9FE, 0xA9FE⟩) List.mem_cons_self ?_
  exact Or.inl (Or.inr ⟨Or.inl (by decide), Or.inl (by decide)⟩)

end Mapped

end Syncle.Streams
