import Mathlib.Data.Bool.AllAny
import Syncle.Js.RegExp
import Syncle.Lib.Unicode

/-!
# Redis: the pattern of a bridge's keys

The filter of a Redis bridge is a glob. The copy hands it to the server as `MATCH`, the stream applies
`redisGlobMatch` to each event. The two read the glob separately: the server byte by byte, the program
by writing a regular expression that is read code unit by code unit.

Most globs are read alike (`Alike`): what differs are classes that the program cuts or copies otherwise
than the server. And a `?` or a negated class takes one byte there and one code unit here, which is
one letter for both as long as it comes to stand before ASCII letters only (`Meets`).
-/

namespace Syncle.Redis

open Syncle.Lib Syncle.Js

/-!
## The program's reading

The glob becomes the text of a regular expression, and that is matched on code units.
-/

def escapeRegExp (u : ℕ) : List ℕ :=
  if u ∈ ['.', '*', '+', '?', '^', '$', '{', '}', '(', ')', '|', '[', ']', '\\'].map Char.toNat then
    ['\\'.toNat, u]
  else [u]

/-- `body.replace(/[\\\]^]/g, '\\$&')` -/
def escapeClass (body : List ℕ) : List ℕ :=
  body.flatMap fun u =>
    if u = '\\'.toNat ∨ u = ']'.toNat ∨ u = '^'.toNat then ['\\'.toNat, u] else [u]

/-- The loop of `redisGlobMatch`; `skip` units were read with one before. -/
def regExpText : ℕ → List ℕ → List ℕ
  | _, [] => []
  | skip + 1, _ :: rest => regExpText skip rest
  | 0, ch :: rest =>
    if ch = '*'.toNat then ['[', '\\', 's', '\\', 'S', ']', '*'].map Char.toNat ++ regExpText 0 rest
    else if ch = '?'.toNat then ['[', '\\', 's', '\\', 'S', ']'].map Char.toNat ++ regExpText 0 rest
    else if ch = '\\'.toNat ∧ rest ≠ [] then escapeRegExp (rest.headD 0) ++ regExpText 1 rest
    else if ch = '['.toNat then
      match rest.idxOf? ']'.toNat with
      | none => ['\\', '['].map Char.toNat ++ regExpText 0 rest
      | some close =>
        let negate : Bool := rest.head? = some '^'.toNat
        let body := if negate then (rest.take close).tail else rest.take close
        '['.toNat :: ((if negate then ['^'.toNat] else []) ++ escapeClass body ++ [']'.toNat]) ++
          regExpText (close + 1) rest
    else escapeRegExp ch ++ regExpText 0 rest

def redisGlobMatch (glob value : List ℕ) : Except RegExpFault Bool :=
  regExpTest ('^'.toNat :: (regExpText 0 glob ++ ['$'.toNat])) value

/-!
## The server's reading

The server matches bytes, with rules of its own for what a class is.
-/

/-- The members of a class, and how many bytes of the glob it takes. A class that is not closed takes
all of them. -/
def classMembers : ℕ → List ℕ → List (ℕ × ℕ) × ℕ
  | _, [] => ([], 0)
  | skip + 1, _ :: rest =>
    let (members, n) := classMembers skip rest
    (members, n + 1)
  | 0, u :: rest =>
    if u = '\\'.toNat ∧ rest ≠ [] then
      let (members, n) := classMembers 1 rest
      ((rest.headD 0, rest.headD 0) :: members, n + 1)
    else if u = ']'.toNat then ([], 1)
    else
      match rest.take 2 with
      | [v, w] =>
        if v = '-'.toNat then
          let (members, n) := classMembers 2 rest
          ((min u w, max u w) :: members, n + 1)
        else
          let (members, n) := classMembers 0 rest
          ((u, u) :: members, n + 1)
      | _ =>
        let (members, n) := classMembers 0 rest
        ((u, u) :: members, n + 1)

def inMembers (members : List (ℕ × ℕ)) (c : ℕ) : Bool :=
  members.any fun (least, most) => least ≤ c && c ≤ most

def redisItems : ℕ → List ℕ → List (GlobItem ℕ)
  | _, [] => []
  | skip + 1, _ :: rest => redisItems skip rest
  | 0, u :: rest =>
    if u = '*'.toNat then .star :: redisItems 0 rest
    else if u = '?'.toNat then .any :: redisItems 0 rest
    else if u = '['.toNat then
      let negated : Bool := rest.head? = some '^'.toNat
      let opening := if negated then 1 else 0
      let (members, n) := classMembers 0 (rest.drop opening)
      .one (fun c => inMembers members c != negated) :: redisItems (opening + n) rest
    else if u = '\\'.toNat ∧ rest ≠ [] then .letter (rest.headD 0) :: redisItems 1 rest
    else .letter u :: redisItems 0 rest

/-- `MATCH`, as the server documents it. -/
def redisMatch (glob key : List ℕ) : Bool :=
  accepts (redisItems 0 glob) key

/-! ## Where the two readings agree -/

def globCharacters : List Char := ['*', '?', '[', '\\']

/-- The class is closed for both at the same bracket, is written in ASCII, and has the same members for
both. -/
structure AlikeClass (body : List Char) (rest : List Char) where
  members : List (ℕ × ℕ)
  ascii : ∀ c ∈ body, Ascii c
  closed : ']' ∉ body
  read : classMembers 0 ((body ++ ']' :: rest).flatMap utf8) = (members, body.length + 1)
  ranges : List ClassMember
  ascend : classRanges 0 (body.map fun c => .unit c.toNat) = .ok ranges
  same : ∀ u, ranges.any (·.has u) = inMembers members u

/-- A glob that both read alike, as these items. -/
inductive Alike : List Char → List (LetterItem Char) → Prop
  | nil : Alike [] []
  | star {rest : List Char} {items : List (LetterItem Char)} (alike : Alike rest items) :
    Alike ('*' :: rest) (.star :: items)
  | any {rest : List Char} {items : List (LetterItem Char)} (alike : Alike rest items) :
    Alike ('?' :: rest) (.one (fun _ => true) Ascii :: items)
  | cls {body rest : List Char} {items : List (LetterItem Char)} (plain : body.head? ≠ some '^')
    (same : AlikeClass body rest) (alike : Alike rest items) :
    Alike ('[' :: (body ++ ']' :: rest))
      (.one (fun c => decide (Ascii c) && inMembers same.members c.toNat) (fun _ => True) :: items)
  | notCls {body rest : List Char} {items : List (LetterItem Char)} (same : AlikeClass body rest)
    (alike : Alike rest items) :
    Alike ('[' :: '^' :: (body ++ ']' :: rest))
      (.one (fun c => !inMembers same.members c.toNat) Ascii :: items)
  | escaped (c : Char) {rest : List Char} {items : List (LetterItem Char)} (alike : Alike rest items) :
    Alike ('\\' :: c :: rest) (.letter c :: items)
  | backslash : Alike ['\\'] [.letter '\\']
  | letter {c : Char} (plain : c ∉ globCharacters) {rest : List Char}
    {items : List (LetterItem Char)} (alike : Alike rest items) : Alike (c :: rest) (.letter c :: items)

/-!
## Letters

A letter is one to four bytes and one or two code units. Both codes are taken for what they share: no
unit of another letter is an ASCII one (`Units`), so a glob's marks are never read inside of a letter.
-/

def Plain (u : ℕ) : Prop := ∀ c ∈ globCharacters, u ≠ c.toNat

theorem plain_of_large {u : ℕ} (large : 0x80 ≤ u) : Plain u := by
  intro c mem is
  have small : ∀ c ∈ globCharacters, c.toNat < 0x80 :=
    List.all_iff_forall_prop.mp rfl
  have := small c mem
  omega

/-- What a letter is written with; ASCII letters are themselves, and no unit of another letter is one. -/
structure Units (code : Char → List ℕ) where
  sync : SelfSync code
  ascii : ∀ {c}, Ascii c → code c = [c.toNat]
  other : ∀ {c}, ¬ Ascii c → ∀ {x}, x ∈ code c → 0x80 ≤ x

def utf8Units : Units utf8 := ⟨utf8Sync, utf8_of_ascii, not_ascii_utf8⟩

def utf16Units : Units utf16 := ⟨utf16Sync, utf16_of_ascii, not_ascii_utf16⟩

namespace Units

variable {code : Char → List ℕ}

theorem plain (units : Units code) {c : Char} (plain : c ∉ globCharacters) {u : ℕ} (mem : u ∈ code c) :
    Plain u := by
  by_cases ascii : Ascii c
  · rw [units.ascii ascii, List.mem_singleton] at mem
    intro special found is
    rw [mem] at is
    exact plain (Char.toNat_inj.mp is ▸ found)
  · exact plain_of_large (units.other ascii mem)

/-- After its first unit, a letter has nothing that a glob reads. -/
theorem head (units : Units code) (c : Char) :
    ∃ u t, code c = u :: t ∧ ∀ x ∈ t, Plain x := by
  by_cases ascii : Ascii c
  · exact ⟨c.toNat, [], units.ascii ascii, by simp⟩
  · obtain ⟨u, t, coded, -⟩ := units.sync.first c
    refine ⟨u, t, coded, fun x mem => plain_of_large (units.other ascii ?_)⟩
    rw [coded]
    exact List.mem_cons_of_mem _ mem

theorem flatMap_ascii (units : Units code) {body : List Char} (ascii : ∀ c ∈ body, Ascii c) :
    body.flatMap code = body.map Char.toNat :=
  Lib.flatMap_ascii units.ascii ascii

/-- A set of units within ASCII takes whole letters… -/
theorem whole (units : Units code) {q : ℕ → Bool} (small : ∀ u, q u = true → u < 0x80) :
    Whole code (fun _ => True) (fun c => decide (Ascii c) && q c.toNat) q where
  first c _ u t coded := by
    by_cases ascii : Ascii c
    · rw [units.ascii ascii] at coded
      obtain ⟨rfl, rfl⟩ := List.cons.inj coded
      simp [ascii]
    · have large : ¬ u < 0x80 := by
        have := units.other ascii (coded ▸ List.mem_cons_self : u ∈ code c)
        omega
      have refused : q u = false := Bool.eq_false_iff.mpr fun taken => large (small u taken)
      simp [ascii, refused]
  inner c _ u t coded x mem := by
    by_cases ascii : Ascii c
    · rw [units.ascii ascii] at coded
      obtain ⟨rfl, rfl⟩ := List.cons.inj coded
      exact absurd mem List.not_mem_nil
    · have large : ¬ x < 0x80 := by
        have := units.other ascii (coded ▸ List.mem_cons_of_mem _ mem : x ∈ code c)
        omega
      exact Bool.eq_false_iff.mpr fun taken => large (small x taken)

/-- …and every set does where it meets ASCII letters. -/
theorem whole_ascii (units : Units code) (q : ℕ → Bool) :
    Whole code Ascii (fun c => q c.toNat) q where
  first c letter u t coded := by
    rw [units.ascii letter] at coded
    obtain ⟨rfl, rfl⟩ := List.cons.inj coded
    exact ⟨rfl, fun _ => rfl⟩
  inner c letter u t coded x mem := by
    rw [units.ascii letter] at coded
    obtain ⟨rfl, rfl⟩ := List.cons.inj coded
    exact absurd mem List.not_mem_nil

end Units

/-!
## What each reads, piece by piece

A mark, a letter and a class at a time: what the program writes of it in its expression and reads
there again, and what the server reads.
-/

theorem regExpText_skip (front : List ℕ) {rest : List ℕ} {skip : ℕ} (is : front.length = skip) :
    regExpText skip (front ++ rest) = regExpText 0 rest := by
  induction front generalizing skip with
  | nil => rw [← is]; rfl
  | cons u front ih =>
    rw [← is, List.length_cons, List.cons_append, regExpText]
    exact ih rfl

theorem redisItems_skip (front : List ℕ) {rest : List ℕ} {skip : ℕ} (is : front.length = skip) :
    redisItems skip (front ++ rest) = redisItems 0 rest := by
  induction front generalizing skip with
  | nil => rw [← is]; rfl
  | cons u front ih =>
    rw [← is, List.length_cons, List.cons_append, redisItems]
    exact ih rfl

theorem terms_escapeRegExp {u : ℕ} {rest : List ℕ} :
    terms 0 (escapeRegExp u ++ rest) = (terms 0 rest).map (.letter u :: ·) := by
  have same : (u ∈ ['.', '*', '+', '?', '^', '$', '{', '}', '(', ')', '|', '[', ']', '\\'].map
      Char.toNat) ↔ u ∈ syntaxCharacters := by
    simp only [syntaxCharacters, List.map_cons, List.map_nil, List.mem_cons]
    tauto
  rw [escapeRegExp]
  by_cases special : u ∈ syntaxCharacters
  · rw [if_pos (same.mpr special)]
    exact terms_escaped special
  · rw [if_neg (mt same.mp special)]
    exact terms_letter special

/-- The regular expression of what is left of the glob. -/
def readRest (rest : List ℕ) : Except RegExpFault (List (GlobItem ℕ)) :=
  terms 0 (regExpText 0 rest ++ ['$'.toNat])

theorem regExpText_plain {u : ℕ} {rest : List ℕ} (plain : Plain u ∨ u = '\\'.toNat ∧ rest = []) :
    regExpText 0 (u :: rest) = escapeRegExp u ++ regExpText 0 rest := by
  rcases plain with plain | ⟨rfl, rfl⟩
  · rw [regExpText, if_neg (plain '*' (by decide)), if_neg (plain '?' (by decide)),
      if_neg fun is => plain '\\' (by decide) is.1, if_neg (plain '[' (by decide))]
  · rfl

theorem redisItems_plain {u : ℕ} {rest : List ℕ} (plain : Plain u ∨ u = '\\'.toNat ∧ rest = []) :
    redisItems 0 (u :: rest) = .letter u :: redisItems 0 rest := by
  rcases plain with plain | ⟨rfl, rfl⟩
  · rw [redisItems, if_neg (plain '*' (by decide)), if_neg (plain '?' (by decide)),
      if_neg (plain '[' (by decide)), if_neg fun is => plain '\\' (by decide) is.1]
  · rfl

theorem readRest_unit {u : ℕ} {rest : List ℕ} (plain : Plain u ∨ u = '\\'.toNat ∧ rest = []) :
    readRest (u :: rest) = (readRest rest).map (.letter u :: ·) := by
  rw [readRest, regExpText_plain plain, List.append_assoc, terms_escapeRegExp]
  rfl

theorem readRest_plain {us rest : List ℕ} (plain : ∀ u ∈ us, Plain u) :
    readRest (us ++ rest) = (readRest rest).map (literal us ++ ·) := by
  induction us with
  | nil =>
    show readRest rest = (readRest rest).map fun items => items
    cases readRest rest <;> rfl
  | cons u us ih =>
    rw [List.cons_append, readRest_unit (Or.inl (plain u List.mem_cons_self)),
      ih fun u mem => plain u (List.mem_cons_of_mem _ mem)]
    cases readRest rest <;> rfl

theorem redisItems_plains {us rest : List ℕ} (plain : ∀ u ∈ us, Plain u) :
    redisItems 0 (us ++ rest) = literal us ++ redisItems 0 rest := by
  induction us with
  | nil => rfl
  | cons u us ih =>
    rw [List.cons_append, redisItems_plain (Or.inl (plain u List.mem_cons_self)),
      ih fun u mem => plain u (List.mem_cons_of_mem _ mem)]
    rfl

theorem readRest_escaped {u : ℕ} {us rest : List ℕ} (plain : ∀ u ∈ us, Plain u) :
    readRest ('\\'.toNat :: u :: (us ++ rest)) = (readRest rest).map (literal (u :: us) ++ ·) := by
  have text : regExpText 0 ('\\'.toNat :: u :: (us ++ rest)) =
      escapeRegExp u ++ regExpText 0 (us ++ rest) := by
    rw [regExpText, if_neg (by decide), if_neg (by decide), if_pos ⟨rfl, List.cons_ne_nil _ _⟩]
    exact congrArg _ (regExpText_skip [u] rfl)
  rw [readRest, text, List.append_assoc, terms_escapeRegExp]
  show (readRest (us ++ rest)).map _ = _
  rw [readRest_plain plain]
  cases readRest rest <;> rfl

theorem redisItems_escaped {u : ℕ} {us rest : List ℕ} (plain : ∀ u ∈ us, Plain u) :
    redisItems 0 ('\\'.toNat :: u :: (us ++ rest)) = literal (u :: us) ++ redisItems 0 rest := by
  rw [redisItems, if_neg (by decide), if_neg (by decide), if_neg (by decide),
    if_pos ⟨rfl, List.cons_ne_nil _ _⟩]
  have after : redisItems 1 (u :: (us ++ rest)) = redisItems 0 (us ++ rest) := redisItems_skip [u] rfl
  rw [after, redisItems_plains plain]
  rfl

/-! ### Any letters -/

theorem hasMember_all :
    hasMember [ClassAtom.space.member, ClassAtom.nonSpace.member] false = fun _ => true := by
  funext u
  simp [hasMember, ClassAtom.member, ClassMember.has]

theorem classAtoms_all (rest : List ℕ) :
    classAtoms (['\\', 's', '\\', 'S', ']'].map Char.toNat ++ rest) =
      .ok ([.space, .nonSpace], 5) :=
  classAtoms_escape rfl (classAtoms_escape rfl classAtoms_close)

theorem classRanges_all : classRanges 0 [.space, .nonSpace] =
    .ok [ClassAtom.space.member, ClassAtom.nonSpace.member] := rfl

theorem readRest_star {rest : List ℕ} :
    readRest ('*'.toNat :: rest) = (readRest rest).map (.star :: ·) := by
  have read := terms_class false (['\\', 's', '\\', 'S', ']'].map Char.toNat)
    ('*'.toNat :: (regExpText 0 rest ++ ['$'.toNat])) (by decide) (by decide) (classAtoms_all _)
  rw [classRanges_all] at read
  simp only [Except.bind, hasMember_all] at read
  exact read

theorem head_escapeRegExp (u : ℕ) (rest : List ℕ) :
    (escapeRegExp u ++ rest).head? ≠ some '*'.toNat := by
  rw [escapeRegExp]
  split
  · simp
  · rename_i plain
    intro is
    exact plain (Option.some.inj is ▸ by decide)

/-- No term of a regular expression that is written here begins with a star. -/
theorem head_regExpText (rest : List ℕ) :
    (regExpText 0 rest ++ ['$'.toNat]).head? ≠ some '*'.toNat := by
  cases rest with
  | nil => decide
  | cons ch rest =>
    rw [regExpText]
    split
    · simp
    · split
      · simp
      · split
        · rw [List.append_assoc]
          exact head_escapeRegExp _ _
        · split
          · split <;> simp
          · rw [List.append_assoc]
            exact head_escapeRegExp _ _

theorem readRest_any {rest : List ℕ} :
    readRest ('?'.toNat :: rest) = (readRest rest).map (.any :: ·) := by
  have read := terms_class false (['\\', 's', '\\', 'S', ']'].map Char.toNat)
    (regExpText 0 rest ++ ['$'.toNat]) (by decide) (by decide) (classAtoms_all _)
  rw [classRanges_all] at read
  simp only [Except.bind, if_neg (head_regExpText rest), hasMember_all] at read
  exact read

/-! ### Classes -/

theorem escapeClass_escaped {u : ℕ} {body : List ℕ}
    (escaped : u = '\\'.toNat ∨ u = ']'.toNat ∨ u = '^'.toNat) :
    escapeClass (u :: body) = '\\'.toNat :: u :: escapeClass body := by
  rw [escapeClass, List.flatMap_cons, if_pos escaped]
  rfl

theorem escapeClass_plain {u : ℕ} {body : List ℕ}
    (plain : ¬ (u = '\\'.toNat ∨ u = ']'.toNat ∨ u = '^'.toNat)) :
    escapeClass (u :: body) = u :: escapeClass body := by
  rw [escapeClass, List.flatMap_cons, if_neg plain]
  rfl

theorem classAtoms_escapeClass {body rest : List ℕ} :
    classAtoms (escapeClass body ++ ']'.toNat :: rest) =
      .ok (body.map .unit, (escapeClass body).length + 1) := by
  induction body with
  | nil => exact classAtoms_close
  | cons u body ih =>
    by_cases escaped : u = '\\'.toNat ∨ u = ']'.toNat ∨ u = '^'.toNat
    · have letter : classEscape u = .ok (.unit u) := by
        rcases escaped with rfl | rfl | rfl <;> rfl
      rw [escapeClass_escaped escaped]
      exact classAtoms_escape letter ih
    · obtain ⟨backslash, other⟩ := not_or.mp escaped
      rw [escapeClass_plain escaped]
      exact classAtoms_unit (not_or.mp other).1 backslash ih

theorem head_escapeClass (body rest : List ℕ) :
    (escapeClass body ++ ']'.toNat :: rest).head? ≠ some '^'.toNat := by
  cases body with
  | nil => simp [escapeClass]
  | cons u body =>
    by_cases escaped : u = '\\'.toNat ∨ u = ']'.toNat ∨ u = '^'.toNat
    · simp [escapeClass_escaped escaped]
    · rw [escapeClass_plain escaped]
      intro is
      exact escaped (Or.inr (Or.inr (Option.some.inj is)))

theorem idxOf?_closed {body rest : List ℕ} (closed : ']'.toNat ∉ body) :
    (body ++ ']'.toNat :: rest).idxOf? ']'.toNat = some body.length := by
  induction body with
  | nil => simp [List.idxOf?_cons]
  | cons u body ih =>
    have apart : ¬ (u == ']'.toNat) = true := by
      intro is
      exact closed (beq_iff_eq.mp is ▸ List.mem_cons_self)
    rw [List.cons_append, List.idxOf?_cons, if_neg apart,
      ih fun mem => closed (List.mem_cons_of_mem _ mem)]
    rfl

theorem regExpText_class {body rest : List ℕ} (negate : Bool) (closed : ']'.toNat ∉ body)
    (caret : negate = false → body.head? ≠ some '^'.toNat) :
    regExpText 0 ('['.toNat :: ((if negate then ['^'.toNat] else []) ++ body ++ ']'.toNat :: rest)) =
      '['.toNat :: ((if negate then ['^'.toNat] else []) ++ (escapeClass body ++ [']'.toNat]) ++
        regExpText 0 rest) := by
  rw [regExpText, if_neg (by decide), if_neg (by decide), if_neg (by simp), if_pos rfl]
  have front : ']'.toNat ∉ (if negate then ['^'.toNat] else []) ++ body := by
    cases negate <;> simpa using closed
  have taken : ((if negate then ['^'.toNat] else []) ++ body ++ ']'.toNat :: rest).take
      ((if negate then ['^'.toNat] else []) ++ body).length =
        (if negate then ['^'.toNat] else []) ++ body := List.take_left
  have opened : decide (((if negate then ['^'.toNat] else []) ++ body ++ ']'.toNat :: rest).head? =
      some '^'.toNat) = negate := by
    cases negate with
    | true => simp
    | false =>
      cases body with
      | nil => simp
      | cons u body => simpa using caret rfl
  have skipped : regExpText (((if negate then ['^'.toNat] else []) ++ body).length + 1)
      ((if negate then ['^'.toNat] else []) ++ body ++ ']'.toNat :: rest) = regExpText 0 rest := by
    rw [List.append_cons]
    exact regExpText_skip _ List.length_append
  simp only [idxOf?_closed front, taken, opened, skipped]
  cases negate <;> simp

theorem readRest_class {body rest : List ℕ} (negate : Bool) (closed : ']'.toNat ∉ body)
    (caret : negate = false → body.head? ≠ some '^'.toNat) :
    readRest ('['.toNat :: ((if negate then ['^'.toNat] else []) ++ body ++ ']'.toNat :: rest)) =
      (classRanges 0 (body.map .unit)).bind fun members =>
        (readRest rest).map (.one (hasMember members negate) :: ·) := by
  have read := terms_class negate (escapeClass body ++ [']'.toNat]) (regExpText 0 rest ++ ['$'.toNat])
    (fun _ => head_escapeClass body []) (by simp)
    (by rw [List.append_assoc, List.length_append]; exact classAtoms_escapeClass)
  simp only [if_neg (head_regExpText rest)] at read
  rw [readRest, regExpText_class negate closed caret, List.cons_append, List.append_assoc]
  exact read

theorem redisItems_class {body rest : List ℕ} (negate : Bool)
    (caret : negate = false → body.head? ≠ some '^'.toNat) {members : List (ℕ × ℕ)}
    (read : classMembers 0 (body ++ ']'.toNat :: rest) = (members, body.length + 1)) :
    redisItems 0 ('['.toNat :: ((if negate then ['^'.toNat] else []) ++ (body ++ ']'.toNat :: rest))) =
      .one (fun c => inMembers members c != negate) :: redisItems 0 rest := by
  have opened : decide (((if negate then ['^'.toNat] else []) ++ (body ++ ']'.toNat :: rest)).head? =
      some '^'.toNat) = negate := by
    cases negate with
    | true => simp
    | false =>
      cases body with
      | nil => simp
      | cons u body => simpa using caret rfl
  have front : ((if negate then ['^'.toNat] else []) ++ (body ++ ']'.toNat :: rest)).drop
      (if negate then 1 else 0) = body ++ ']'.toNat :: rest := by
    cases negate <;> simp
  have skipped : redisItems ((if negate then 1 else 0) + (body.length + 1))
      ((if negate then ['^'.toNat] else []) ++ (body ++ ']'.toNat :: rest)) = redisItems 0 rest := by
    rw [List.append_cons body, ← List.append_assoc]
    exact redisItems_skip _ (by cases negate <;> simp [Nat.add_comm])
  rw [redisItems, if_neg (by decide), if_neg (by decide), if_pos rfl]
  simp only [opened, front, read, skipped]

/-- The ranges of a class are between letters of it. -/
theorem small_classRanges {body : List ℕ} (small : ∀ u ∈ body, u < 0x80) {skip : ℕ}
    {members : List ClassMember} (ranges : classRanges skip (body.map .unit) = .ok members) {u : ℕ}
    (has : members.any (·.has u) = true) : u < 0x80 := by
  induction body generalizing skip members with
  | nil =>
    cases skip <;> (cases ranges; simp at has)
  | cons a body ih =>
    have least := small a List.mem_cons_self
    have later {skip : ℕ} {more : List ClassMember}
        (read : classRanges skip (body.map .unit) = .ok more) (has : more.any (·.has u) = true) :
        u < 0x80 := ih (fun u mem => small u (List.mem_cons_of_mem _ mem)) read has
    have add {skip : ℕ} {first : ClassMember} (within : first.has u = true → u < 0x80)
        (read : (do return first :: (← classRanges skip (body.map .unit))) = Except.ok members) :
        u < 0x80 := by
      cases rest : classRanges skip (body.map .unit) with
      | error fault => rw [rest] at read; cases read
      | ok more =>
        rw [rest] at read
        cases read
        rw [List.any_cons, Bool.or_eq_true] at has
        exact has.elim within (later rest)
    cases skip with
    | succ skip => exact later ranges has
    | zero =>
      have single : (ClassAtom.unit a).member.has u = true → u < 0x80 := by
        simp only [ClassAtom.member, ClassMember.has, Bool.and_eq_true, decide_eq_true_eq]
        omega
      rw [List.map_cons, classRanges] at ranges
      split at ranges
      · rename_i dash b two
        split at ranges
        · split at ranges
          · rename_i most _
            split at ranges
            · cases ranges
            · refine add (fun within => ?_) ranges
              have mem : ClassAtom.unit most ∈ body.map ClassAtom.unit :=
                List.mem_of_mem_take (two ▸ List.mem_cons_of_mem _ List.mem_cons_self)
              obtain ⟨v, inBody, is⟩ := List.mem_map.mp mem
              obtain rfl := ClassAtom.unit.inj is
              have bound := small v (List.mem_cons_of_mem _ inBody)
              simp only [ClassMember.has, Bool.and_eq_true, decide_eq_true_eq] at within
              exact Nat.lt_of_le_of_lt within.2 bound
          · cases ranges
        · exact add single ranges
      · exact add single ranges

theorem readRest_open {rest : List ℕ} (unclosed : ']'.toNat ∉ rest) :
    readRest ('['.toNat :: rest) = (readRest rest).map (.letter '['.toNat :: ·) := by
  have text : regExpText 0 ('['.toNat :: rest) = '\\'.toNat :: '['.toNat :: regExpText 0 rest := by
    rw [regExpText, if_neg (by decide), if_neg (by decide), if_neg (by simp), if_pos rfl,
      List.idxOf?_eq_none_iff.mpr unclosed]
    rfl
  rw [readRest, text]
  exact terms_escaped (by decide)

/-! ### Every glob is read -/

theorem classRanges_modelled {body : List ℕ} {skip : ℕ} :
    classRanges skip (body.map .unit) ≠ .error .beyond := by
  induction body generalizing skip with
  | nil => cases skip <;> exact fun is => nomatch is
  | cons a body ih =>
    have add {skip : ℕ} {first : ClassMember} :
        (do return first :: (← classRanges skip (body.map .unit)) : Except RegExpFault _) ≠
          .error .beyond := by
      cases read : classRanges skip (body.map .unit) with
      | error fault =>
        intro is
        exact ih (read.trans is)
      | ok more => exact fun is => nomatch is
    cases skip with
    | succ skip => exact ih
    | zero =>
      rw [List.map_cons, classRanges]
      split
      · rename_i dash b two
        have mem : b ∈ body.map ClassAtom.unit :=
          List.mem_of_mem_take (two ▸ List.mem_cons_of_mem _ List.mem_cons_self)
        obtain ⟨v, -, rfl⟩ := List.mem_map.mp mem
        split
        · show (if v < a then _ else _) ≠ _
          split
          · exact fun is => nomatch is
          · exact add
        · exact add
      · exact add

/-- A regular expression that the program writes is read here, or by no engine. -/
theorem readRest_modelled (glob : List ℕ) : readRest glob ≠ .error .beyond := by
  induction length : glob.length using Nat.strong_induction_on generalizing glob with
  | _ n ih =>
    subst length
    have add {rest : List ℕ} {item : GlobItem ℕ} (shorter : rest.length < glob.length) :
        (readRest rest).map (item :: ·) ≠ .error .beyond := by
      cases read : readRest rest with
      | error fault =>
        intro is
        exact ih rest.length shorter rest rfl (read.trans is)
      | ok items => exact fun is => nomatch is
    have class_ (negate : Bool) {body rest : List ℕ}
        (is : glob = '['.toNat :: ((if negate then ['^'.toNat] else []) ++ body ++ ']'.toNat :: rest))
        (closed : ']'.toNat ∉ body) (caret : negate = false → body.head? ≠ some '^'.toNat) :
        readRest glob ≠ .error .beyond := by
      have shorter : rest.length < glob.length := by
        simp only [is, List.length_cons, List.length_append]
        omega
      rw [is, readRest_class negate closed caret]
      cases ranges : classRanges 0 (body.map ClassAtom.unit) with
      | error fault =>
        intro fails
        obtain rfl := Except.error.inj fails
        exact classRanges_modelled ranges
      | ok members => exact add shorter
    cases glob with
    | nil => exact fun is => nomatch is
    | cons ch rest =>
      by_cases star : ch = '*'.toNat
      · rw [star, readRest_star]
        exact add (Nat.lt_succ_self _)
      by_cases any : ch = '?'.toNat
      · rw [any, readRest_any]
        exact add (Nat.lt_succ_self _)
      by_cases bracket : ch = '['.toNat
      · by_cases mem : ']'.toNat ∈ rest
        · obtain ⟨front, behind, rfl, closed⟩ := List.eq_append_cons_of_mem mem
          by_cases caret : front.head? = some '^'.toNat
          · obtain ⟨body, rfl⟩ := List.head?_eq_some_iff.mp caret
            exact class_ true (by rw [bracket]; rfl)
              (fun mem => closed (List.mem_cons_of_mem _ mem)) (fun is => absurd is (by decide))
          · exact class_ false (by rw [bracket]; rfl) closed fun _ => caret
        · rw [bracket, readRest_open mem]
          exact add (Nat.lt_succ_self _)
      by_cases backslash : ch = '\\'.toNat ∧ rest ≠ []
      · obtain ⟨rfl, some_⟩ := backslash
        cases rest with
        | nil => exact absurd rfl some_
        | cons u rest =>
          have read : readRest ('\\'.toNat :: u :: rest) = (readRest rest).map (.letter u :: ·) :=
            readRest_escaped (fun _ mem => absurd mem List.not_mem_nil)
          rw [read]
          exact add (Nat.lt_succ_of_lt (Nat.lt_succ_self _))
      · have plain : Plain ch ∨ ch = '\\'.toNat ∧ rest = [] := by
          by_cases alone : ch = '\\'.toNat
          · exact Or.inr ⟨alone, by_contra fun some_ => backslash ⟨alone, some_⟩⟩
          · refine Or.inl fun c mem => ?_
            simp only [globCharacters, List.mem_cons, List.not_mem_nil, or_false] at mem
            rcases mem with rfl | rfl | rfl | rfl
            · exact star
            · exact any
            · exact bracket
            · exact alone
        rw [readRest_unit plain]
        exact add (Nat.lt_succ_self _)

/-!
## One glob for both

The induction is on the glob as both read it; the key is walked from the front.
-/

/-- A glob over letters that the two spell in their own units. -/
structure GlobReading (glob : List Char) (items : List (LetterItem Char)) : Prop where
  program : ∃ js, readRest (glob.flatMap utf16) = .ok js ∧ Spelled utf16 items js
  server : Spelled utf8 items (redisItems 0 (glob.flatMap utf8))

namespace GlobReading

variable {rest : List Char} {items : List (LetterItem Char)}

theorem nil : GlobReading [] [] := ⟨⟨[], rfl, .nil⟩, .nil⟩

theorem star (read : GlobReading rest items) : GlobReading ('*' :: rest) (.star :: items) := by
  obtain ⟨⟨js, program, spelled⟩, server⟩ := read
  refine ⟨⟨.star :: js, ?_, .star spelled⟩, .star server⟩
  show readRest ('*'.toNat :: rest.flatMap utf16) = _
  rw [readRest_star, program]
  rfl

theorem any (read : GlobReading rest items) :
    GlobReading ('?' :: rest) (.one (fun _ => true) Ascii :: items) := by
  obtain ⟨⟨js, program, spelled⟩, server⟩ := read
  refine ⟨⟨.any :: js, ?_, .one (utf16Units.whole_ascii fun _ => true) spelled⟩,
    .one (utf8Units.whole_ascii fun _ => true) server⟩
  show readRest ('?'.toNat :: rest.flatMap utf16) = _
  rw [readRest_any, program]
  rfl

theorem letter {c : Char} (plain : c ∉ globCharacters) (read : GlobReading rest items) :
    GlobReading (c :: rest) (.letter c :: items) := by
  obtain ⟨⟨js, program, spelled⟩, server⟩ := read
  refine ⟨⟨literal (utf16 c) ++ js, ?_, .letter c spelled⟩, ?_⟩
  · rw [List.flatMap_cons, readRest_plain fun _ => utf16Units.plain plain, program]
    rfl
  · rw [List.flatMap_cons, redisItems_plains fun _ => utf8Units.plain plain]
    exact .letter c server

theorem escaped (c : Char) (read : GlobReading rest items) :
    GlobReading ('\\' :: c :: rest) (.letter c :: items) := by
  obtain ⟨⟨js, program, spelled⟩, server⟩ := read
  obtain ⟨u, t, coded, plain⟩ := utf16Units.head c
  obtain ⟨v, s, coded', plain'⟩ := utf8Units.head c
  refine ⟨⟨literal (utf16 c) ++ js, ?_, .letter c spelled⟩, ?_⟩
  · show readRest ('\\'.toNat :: (utf16 c ++ rest.flatMap utf16)) = _
    rw [coded, List.cons_append, readRest_escaped plain, program]
    rfl
  · show Spelled utf8 _ (redisItems 0 ('\\'.toNat :: (utf8 c ++ rest.flatMap utf8)))
    rw [coded', List.cons_append, redisItems_escaped plain', ← coded']
    exact .letter c server

theorem backslash : GlobReading ['\\'] [.letter '\\'] :=
  ⟨⟨[.letter '\\'.toNat], rfl, .letter '\\' .nil⟩, .letter '\\' .nil⟩

variable {body : List Char}

theorem not_mem_units (same : AlikeClass body rest) : ']'.toNat ∉ body.map Char.toNat := by
  intro mem
  obtain ⟨c, mem, is⟩ := List.mem_map.mp mem
  exact same.closed (Char.toNat_inj.mp is ▸ mem)

theorem head_units (plain : body.head? ≠ some '^') : (body.map Char.toNat).head? ≠ some '^'.toNat := by
  cases body with
  | nil => simp
  | cons c body =>
    intro is
    exact plain (congrArg some (Char.toNat_inj.mp (Option.some.inj is)))

/-- A class that is alike for both takes the same units for both. -/
theorem members_same (same : AlikeClass body rest) (negate : Bool) :
    hasMember same.ranges negate = fun c => inMembers same.members c != negate := by
  funext u
  rw [hasMember, same.same]

theorem small_members (same : AlikeClass body rest) {u : ℕ} (has : inMembers same.members u = true) :
    u < 0x80 := by
  have ascend := same.ascend
  rw [← Function.comp_def ClassAtom.unit Char.toNat, ← List.map_map] at ascend
  refine small_classRanges (fun v mem => ?_) ascend ((same.same u).trans has)
  obtain ⟨c, inBody, rfl⟩ := List.mem_map.mp mem
  exact same.ascii c inBody

theorem cls (negate : Bool) (caret : negate = false → body.head? ≠ some '^') (same : AlikeClass body rest)
    {p : Char → Bool} {letters : Char → Prop}
    (whole : ∀ {code : Char → List ℕ}, Units code →
      Whole code letters p fun c => inMembers same.members c != negate)
    (read : GlobReading rest items) :
    GlobReading ('[' :: ((if negate then ['^'] else []) ++ body ++ ']' :: rest))
      (.one p letters :: items) := by
  obtain ⟨⟨js, program, spelled⟩, server⟩ := read
  have ascend := same.ascend
  rw [← Function.comp_def ClassAtom.unit Char.toNat, ← List.map_map] at ascend
  have spelledBody {code : Char → List ℕ} (units : Units code) :
      ('[' :: ((if negate then ['^'] else []) ++ body ++ ']' :: rest)).flatMap code =
        '['.toNat :: ((if negate then ['^'.toNat] else []) ++ body.map Char.toNat ++
          ']'.toNat :: rest.flatMap code) := by
    have one {c : Char} (ascii : Ascii c) (s : List Char) :
        (c :: s).flatMap code = c.toNat :: s.flatMap code := by
      rw [List.flatMap_cons, units.ascii ascii]
      rfl
    rw [one (by decide), List.flatMap_append, List.flatMap_append, units.flatMap_ascii same.ascii,
      one (by decide)]
    cases negate with
    | true => rw [if_pos rfl, if_pos rfl, one (by decide)]; rfl
    | false => rfl
  have members := same.read
  rw [List.flatMap_append, utf8Units.flatMap_ascii same.ascii] at members
  refine ⟨⟨_, ?_, .one (whole utf16Units) spelled⟩, ?_⟩
  · rw [spelledBody utf16Units, readRest_class negate (not_mem_units same)
      (fun is => head_units (caret is)), ascend, program, Except.bind, members_same]
    rfl
  · rw [spelledBody utf8Units, List.append_assoc, redisItems_class negate
      (fun is => head_units (caret is)) (by rw [List.length_map]; exact members)]
    exact .one (whole utf8Units) server

end GlobReading

theorem Alike.reading {glob : List Char} {items : List (LetterItem Char)} (alike : Alike glob items) :
    GlobReading glob items := by
  induction alike with
  | nil => exact .nil
  | star _ read => exact read.star
  | any _ read => exact read.any
  | @cls body rest items plain same _ read =>
    refine read.cls false (fun _ => plain) same fun units => ?_
    simpa using units.whole fun _ => GlobReading.small_members same
  | @notCls body rest items same _ read =>
    refine read.cls true (fun is => absurd is (by decide)) same fun units => ?_
    simpa using units.whole_ascii fun u => !inMembers same.members u
  | escaped c _ read => exact read.escaped c
  | backslash => exact .backslash
  | letter plain _ read => exact read.letter plain

theorem terms_readRest {glob : List ℕ} {js : List (GlobItem ℕ)} (read : readRest glob = .ok js)
    (value : List ℕ) : redisGlobMatch glob value = .ok (accepts js value) := by
  show (do return accepts (← readRest glob) value) = _
  rw [read]
  rfl

theorem redisGlobMatch_modelled (glob value : List ℕ) : redisGlobMatch glob value ≠ .error .beyond := by
  cases read : readRest glob with
  | ok js =>
    rw [terms_readRest read]
    exact fun is => nomatch is
  | error fault =>
    show (do return accepts (← readRest glob) value) ≠ _
    rw [read]
    intro fails
    obtain rfl := Except.error.inj fails
    exact readRest_modelled glob read

/-- **A glob that both read alike selects the same keys** in the copy and in the stream, of those in
which a `?` or a negated class meets ASCII letters only. -/
theorem redisGlobMatch_of_alike {glob key : List Char} {items : List (LetterItem Char)}
    (alike : Alike glob items) (meets : Meets items key) :
    redisGlobMatch (glob.flatMap utf16) (key.flatMap utf16) =
      .ok (redisMatch (glob.flatMap utf8) (key.flatMap utf8)) := by
  obtain ⟨⟨js, program, spelled⟩, server⟩ := alike.reading
  rw [terms_readRest program, redisMatch, spelled.accepts_flatMap utf16Sync meets,
    server.accepts_flatMap utf8Sync meets]

/-- `?:[a-c]*`, on a key with an accent behind: the `?` meets the first letter alone. -/
theorem ascending_class_alike :
    redisGlobMatch (['?', ':', '[', 'a', '-', 'c', ']', '*'].flatMap utf16)
        (['u', ':', 'b', 'é'].flatMap utf16) =
      .ok (redisMatch (['?', ':', '[', 'a', '-', 'c', ']', '*'].flatMap utf8)
        (['u', ':', 'b', 'é'].flatMap utf8)) := by
  have same : AlikeClass ['a', '-', 'c'] ['*'] :=
    { members := [(97, 99)]
      ascii := List.all_iff_forall_prop.mp rfl
      closed := by decide
      read := rfl
      ranges := [.range 97 99]
      ascend := rfl
      same := fun u => rfl }
  refine redisGlobMatch_of_alike (.any (.letter (by decide) (.cls (by decide) same (.star .nil)))) ?_
  simp [Meets, Ascii]

/-- A range that goes down: the server swaps its ends, the program throws. -/
theorem descending_range_throws :
    (redisGlobMatch (['[', 'c', '-', 'a', ']'].flatMap utf16) (['b'].flatMap utf16) =
      .error .syntaxError ∧
    redisMatch (['[', 'c', '-', 'a', ']'].flatMap utf8) (['b'].flatMap utf8) = true) ∧
    ¬ ∀ glob key : List Char, redisGlobMatch (glob.flatMap utf16) (key.flatMap utf16) =
      .ok (redisMatch (glob.flatMap utf8) (key.flatMap utf8)) := by
  have throws : redisGlobMatch (['[', 'c', '-', 'a', ']'].flatMap utf16) (['b'].flatMap utf16) =
      .error .syntaxError := rfl
  refine ⟨⟨throws, by decide⟩, fun all => ?_⟩
  have returns := all ['[', 'c', '-', 'a', ']'] ['b']
  rw [throws] at returns
  cases returns

end Syncle.Redis
