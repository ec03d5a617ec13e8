import Syncle.Backup.JsonBackup
import Syncle.Backup.SplitStatements
import Syncle.Lib.Fold
import Syncle.Sql.Dialect

/-!
# A SQL backup (`backup`, `createTableDump`, `sqlLiteral`)

The writer quotes names and values as the dialect does. A type and a default go into the dump as the
catalog spells them. The splitter that `restore` has for it knows single quotes only: a name in double
quotes or backticks is code to it.

So the dump comes apart into the statements that were written if and only if the names, the types and
the defaults, read one after the other as a statement has them, have their single quotes in pairs and
no `;`, `--` or `/*` outside them (`splits_iff`). What the values are does not matter: a literal is
read whole wherever it starts outside quotes (`Literal.closed`).
-/

namespace Syncle.Backup

open Js Sql

/-! ## The writer -/

structure Column where
  name : String
  dataType : String
  nullable : Bool
  defaultValue : Option String

/-- A table of the schema, and the rows that its pages held. -/
structure Table where
  name : String
  /-- none is the empty one -/
  schema : String
  columns : List Column
  primaryKey : List String
  rows : List (String → Value)

def qualify (d : Dialect) (table schema : String) : List Char :=
  if schema = "" then quoteIdent d table
  else quoteIdent d schema ++ '.' :: quoteIdent d table

/-- `/nextval|auto_increment/i` -/
def fromSequence (text : String) : Bool :=
  let lower := text.toList.map Char.toLower
  lower.tails.any fun rest => "nextval".toList.isPrefixOf rest || "auto_increment".toList.isPrefixOf rest

/-- The default that the dump keeps. -/
def Column.default (c : Column) : Option String :=
  c.defaultValue.filter fun text => text ≠ "" && !fromSequence text

def columnDump (d : Dialect) (c : Column) : List Char :=
  "  ".toList ++ quoteIdent d c.name ++ ' ' :: c.dataType.toList ++
    (if c.nullable then [] else " NOT NULL".toList) ++
    c.default.elim [] fun text => " DEFAULT ".toList ++ text.toList

/-- `join` -/
def joined (separator : String) (texts : List (List Char)) : List Char :=
  separator.toList.intercalate texts

def keyDump (d : Dialect) (primaryKey : List String) : List Char :=
  "  PRIMARY KEY (".toList ++ joined ", " (primaryKey.map (quoteIdent d)) ++ ")".toList

/-- Without its semicolon. -/
def createTableDump (d : Dialect) (t : Table) : List Char :=
  let defs := t.columns.map (columnDump d) ++
    if t.primaryKey = [] then [] else [keyDump d t.primaryKey]
  "CREATE TABLE IF NOT EXISTS ".toList ++ qualify d t.name t.schema ++ " (\n".toList ++
    joined ",\n" defs ++ "\n)".toList

/-- `String` of a number, and `JSON.stringify`, as texts. -/
structure Spelling where
  number : Number → List Char
  json : Json → List Char
  /-- digits, a point, signs and the letters of an exponent; or a word -/
  number_chars : ∀ n, ∀ c ∈ number n, c.isAlphanum = true ∨ c = '.' ∨ c = '+' ∨ c = '-'
  number_signs : ∀ n, ¬ ['-', '-'] <:+: number n

def escapeStringLiteral (d : Dialect) (text : List Char) : List Char :=
  match d with
  | .mysql => double '\\' (double '\'' text)
  | .postgres | .sqlite => double '\'' text

def booleanLiteral (d : Dialect) (value : Bool) : List Char :=
  match d, value with
  | .postgres, true => "TRUE".toList
  | .postgres, false => "FALSE".toList
  | .mysql, true | .sqlite, true => ['1']
  | .mysql, false | .sqlite, false => ['0']

/-- `buf.toString('hex')` -/
def hex (data : List (BitVec 8)) : List Char :=
  data.flatMap fun b => [Nat.digitChar (b.toNat / 16), Nat.digitChar (b.toNat % 16)]

def hexLiteral (d : Dialect) (data : List (BitVec 8)) : List Char :=
  match d with
  | .postgres => '\'' :: '\\' :: 'x' :: (hex data ++ ['\''])
  | .mysql | .sqlite => 'X' :: '\'' :: (hex data ++ ['\''])

/-- The text of a literal. -/
def Literal.toText (spell : Spelling) (d : Dialect) : Literal → List Char
  | .null => "NULL".toList
  | .boolean b => booleanLiteral d b
  | .number n => spell.number n
  | .integer n => (toString n).toList
  | .bytes data => hexLiteral d data
  | .text s => '\'' :: (escapeStringLiteral d s.toList ++ ['\''])
  | .json j => '\'' :: (escapeStringLiteral d (spell.json j) ++ ['\''])

/-- `INSERT INTO` of one row, up to its values. -/
def insertHead (d : Dialect) (t : Table) : List Char :=
  "INSERT INTO ".toList ++ qualify d t.name t.schema ++ " (".toList ++
    joined ", " (t.columns.map fun c => quoteIdent d c.name) ++ ") VALUES (".toList

/-- Without its semicolon; none where a value has no literal. -/
def insertDump (spell : Spelling) (d : Dialect) (t : Table) (row : String → Value) :
    Option (List Char) :=
  (t.columns.mapM fun c => sqlLiteral (row c.name)).map fun values =>
    insertHead d t ++ joined ", " (values.map (Literal.toText spell d)) ++ [')']

/-- What a table adds to the dump: its statements, and blank lines. -/
def tableLines (spell : Spelling) (d : Dialect) (t : Table) : Option (List (Option (List Char))) :=
  (t.rows.mapM (insertDump spell d t)).map fun inserts =>
    some (createTableDump d t) :: none :: inserts.map some ++
      if inserts = [] then [] else [none]

def dumpLines (spell : Spelling) (d : Dialect) (tables : List Table) :
    Option (List (Option (List Char))) :=
  (tables.mapM (tableLines spell d)).map List.flatten

/-- `out.join('\n')` -/
def backupText (d : Dialect) (database : String) (lines : List (Option (List Char))) : List Char :=
  joined "\n" (["-- Syncle SQL backup".toList, "-- engine: ".toList ++ d.name.toList,
    "-- database: ".toList ++ database.toList, []] ++ lines.map fun line => line.elim [] (· ++ [';']))

/-! ## What the quotes of a statement say -/

/-- Text that the splitter passes over in any mode: it is all the writer's own. -/
def Fixed (text : List Char) : Prop := ∀ c ∈ text, c ∉ ['\'', ';', '-', '/', '*']

instance (text : List Char) : Decidable (Fixed text) :=
  List.decidableBAll (fun c => c ∉ ['\'', ';', '-', '/', '*']) text

theorem Fixed.apart {text : List Char} (fixed : Fixed text) : Apart text := by
  intro c head
  have other := fixed c (List.mem_of_mem_head? head)
  simp only [List.mem_cons, List.not_mem_nil, or_false, not_or] at other
  exact ⟨other.2.2.1, other.2.2.2.2⟩

theorem quotes_fixed {text : List Char} (fixed : Fixed text) (inside : Bool) (rest : List Char) :
    quotes inside (text ++ rest) = quotes inside rest := by
  induction text with
  | nil => rfl
  | cons c text ih =>
    have other := fixed c List.mem_cons_self
    simp only [List.mem_cons, List.not_mem_nil, or_false, not_or] at other
    rw [List.cons_append, quotes, if_neg other.1, if_neg (by simp [other])]
    exact ih fun d mem => fixed d (List.mem_cons_of_mem _ mem)

theorem Apart.append {a b : List Char} (ha : Apart a) (hb : Apart b) : Apart (a ++ b) := by
  cases a with
  | nil => exact hb
  | cons c a => exact ha

theorem Apart.append_of_ne_nil {a : List Char} (ha : Apart a) (some_ : a ≠ []) (b : List Char) :
    Apart (a ++ b) := by
  cases a with
  | nil => exact absurd rfl some_
  | cons c a => exact ha

/-- Of a text of the writer's, the quotes are those of the pieces it was given. -/
def Reads (text : List Char) (pieces : List (List Char)) : Prop :=
  ∀ inside tail, Apart tail →
    quotes inside (text ++ tail) = (pieces.foldlM quotes inside).bind (quotes · tail)

namespace Reads

variable {a b : List Char} {ps qs : List (List Char)}

theorem piece (text : List Char) : Reads text [text] := by
  intro inside tail apart
  rw [quotes_append inside text apart]
  simp

theorem fixed (h : Fixed a) : Reads a [] := by
  intro inside tail _
  rw [quotes_fixed h]
  rfl

/-- Behind text of the writer's own a piece may start with anything. -/
theorem behind (h : Fixed a) (hb : Reads b ps) : Reads (a ++ b) ps := by
  intro inside tail apart
  rw [List.append_assoc, quotes_fixed h]
  exact hb inside tail apart

theorem append (ha : Reads a ps) (hb : Reads b qs) (starts : Apart b) :
    Reads (a ++ b) (ps ++ qs) := by
  intro inside tail apart
  rw [List.append_assoc, ha inside (b ++ tail) (starts.append apart), List.foldlM_append]
  simp only [Option.bind_eq_bind, Option.bind_assoc]
  refine congrArg _ (funext fun after => ?_)
  exact hb after tail apart

theorem join {separator : String} (sep : Fixed separator.toList) (some_ : separator.toList ≠ [])
    {texts : List (List Char)} {pieces : List (List (List Char))} (h : List.Forall₂ Reads texts pieces) :
    Reads (joined separator texts) pieces.flatten := by
  unfold joined
  induction h with
  | nil => exact fixed (by simp [Fixed])
  | @cons text p texts pieces here rest ih =>
    cases rest with
    | nil => simpa using here
    | cons _ _ =>
      rw [List.intercalate_cons_cons, List.flatten_cons, List.append_assoc]
      exact here.append (behind sep ih) (sep.apart.append_of_ne_nil some_ _)

end Reads

/-! ## Names, types and defaults -/

/-- Doubling a quote that is not a single one changes nothing that the splitter looks at. -/
theorem quotes_double {q : Char} (other : q ∉ ['\'', ';', '-', '/', '*']) (inside : Bool)
    (text rest : List Char) :
    quotes inside (double q text ++ q :: rest) = (quotes inside text).bind (quotes · rest) := by
  simp only [List.mem_cons, List.not_mem_nil, or_false, not_or] at other
  have passed : ∀ inside rest, quotes inside (q :: rest) = quotes inside rest := by
    intro inside rest
    rw [quotes, if_neg other.1, if_neg (by simp [other])]
  induction text generalizing inside with
  | nil => exact passed inside rest
  | cons c text ih =>
    by_cases quote : c = q
    · subst quote
      have here : double c (c :: text) = c :: c :: double c text := by simp [double]
      rw [here, List.cons_append, List.cons_append, passed, passed, passed]
      exact ih inside
    · have here : double q (c :: text) = c :: double q text := by simp [double, quote]
      have head : ∀ d, d = '-' ∨ d = '*' →
          ((double q text ++ q :: rest).head? = some d ↔ text.head? = some d) := by
        intro d which
        have notQuote : q ≠ d := by
          rcases which with rfl | rfl
          · exact other.2.2.1
          · exact other.2.2.2.2
        cases text with
        | nil => simp [double, notQuote]
        | cons e text =>
          by_cases again : e = q
          · subst again
            simp [double]
          · simp [double, again]
      rw [here, List.cons_append]
      simp only [quotes, head '-' (.inl rfl), head '*' (.inr rfl)]
      split_ifs
      · exact ih _
      · rfl
      · exact ih _

/-- A name in its quotes says what the name does. -/
theorem Reads.name (d : Dialect) (identifier : String) :
    Reads (quoteIdent d identifier) [identifier.toList] := by
  have other : d.quote ∉ ['\'', ';', '-', '/', '*'] := by cases d <;> decide
  intro inside tail _
  have opened : Fixed [d.quote] := by
    intro c mem
    obtain rfl := List.mem_singleton.mp mem
    exact other
  have text : quoteIdent d identifier ++ tail =
      [d.quote] ++ (double d.quote identifier.toList ++ d.quote :: tail) := by
    simp [quoteIdent]
  rw [text, quotes_fixed opened, quotes_double other]
  simp

/-- The names of a table, in the order they are written. -/
def qualifiedBy (t : Table) : List String :=
  if t.schema = "" then [t.name] else [t.schema, t.name]

/-- What a column is declared with. -/
def Column.given (c : Column) : List String := [c.name, c.dataType] ++ c.default.toList

/-- What a `CREATE TABLE` writes as it is given. -/
def createdBy (t : Table) : List String :=
  qualifiedBy t ++ t.columns.flatMap Column.given ++ t.primaryKey

/-- …and an `INSERT INTO`, before its values. -/
def insertedBy (t : Table) : List String := qualifiedBy t ++ t.columns.map (·.name)

/-- Read one after the other: the single quotes are in pairs, and no `;`, `--` or `/*` stands outside
them. -/
def PairUp (texts : List String) : Prop :=
  (texts.map String.toList).foldlM quotes false = some false

instance (texts : List String) : Decidable (PairUp texts) :=
  inferInstanceAs (Decidable (_ = _))

theorem Reads.qualify (d : Dialect) (t : Table) :
    Reads (qualify d t.name t.schema) ((qualifiedBy t).map String.toList) := by
  unfold Backup.qualify qualifiedBy
  by_cases plain : t.schema = ""
  · rw [if_pos plain, if_pos plain]
    exact .name d t.name
  · rw [if_neg plain, if_neg plain]
    have dot : Fixed ['.'] := by decide
    exact (Reads.name d t.schema).append (.behind dot (.name d t.name)) fun c head => by
      obtain rfl : '.' = c := Option.some.inj head
      decide

theorem Reads.column (d : Dialect) (c : Column) :
    Reads (columnDump d c) (c.given.map String.toList) := by
  have indent : Fixed "  ".toList := by decide
  have space : Fixed [' '] := by decide
  have required : Fixed " NOT NULL".toList := by decide
  have word : Fixed " DEFAULT ".toList := by decide
  have named : Reads ("  ".toList ++ quoteIdent d c.name) [c.name.toList] := .behind indent (.name d _)
  have typed := named.append (.behind space (.piece c.dataType.toList)) (fun x head => by
    obtain rfl : ' ' = x := Option.some.inj head
    decide)
  have nullable : Fixed (if c.nullable then [] else " NOT NULL".toList) := by
    cases c.nullable <;> decide
  have wanted := typed.append (.fixed nullable) nullable.apart
  cases default : c.default with
  | none =>
    rw [columnDump, Column.given, default, Option.elim_none, List.append_nil]
    exact wanted
  | some text =>
    rw [columnDump, Column.given, default]
    exact wanted.append (.behind word (.piece text.toList)) fun x head => by
      obtain rfl : ' ' = x := Option.some.inj head
      decide

theorem Reads.names (d : Dialect) (names : List String) :
    Reads (joined ", " (names.map (quoteIdent d))) (names.map String.toList) := by
  have each : List.Forall₂ Reads (names.map (quoteIdent d)) (names.map fun n => [n.toList]) := by
    rw [List.forall₂_map_left_iff, List.forall₂_map_right_iff]
    exact List.forall₂_same.mpr fun n _ => .name d n
  have comma : Fixed ", ".toList := by decide
  have flat : (names.map fun n => [n.toList]).flatten = names.map String.toList := by
    rw [List.map_eq_flatMap (f := String.toList), List.flatMap_def]
  rw [← flat]
  exact .join comma (by decide) each

theorem Reads.key (d : Dialect) (primaryKey : List String) :
    Reads (keyDump d primaryKey) (primaryKey.map String.toList) := by
  have word : Fixed "  PRIMARY KEY (".toList := by decide
  have close : Fixed ")".toList := by decide
  have named := (Reads.names d primaryKey).behind word
  exact List.append_nil (primaryKey.map String.toList) ▸ named.append (.fixed close) close.apart

/-- **What a `CREATE TABLE` says** is what it was given. -/
theorem Reads.create (d : Dialect) (t : Table) :
    Reads (createTableDump d t) ((createdBy t).map String.toList) := by
  have word : Fixed "CREATE TABLE IF NOT EXISTS ".toList := by decide
  have opened : Fixed " (\n".toList := by decide
  have comma : Fixed ",\n".toList := by decide
  have close : Fixed "\n)".toList := by decide
  have columns : List.Forall₂ Reads (t.columns.map (columnDump d)) (t.columns.map fun c =>
      c.given.map String.toList) := by
    rw [List.forall₂_map_left_iff, List.forall₂_map_right_iff]
    exact List.forall₂_same.mpr fun c _ => .column d c
  have keys : List.Forall₂ Reads (if t.primaryKey = [] then [] else [keyDump d t.primaryKey])
      (if t.primaryKey = [] then [] else [t.primaryKey.map String.toList]) := by
    by_cases none : t.primaryKey = []
    · rw [if_pos none, if_pos none]
      exact .nil
    · rw [if_neg none, if_neg none]
      exact .cons (.key d _) .nil
  have defs := Reads.join comma (by decide) (List.rel_append columns keys)
  have target := (Reads.qualify d t).behind word
  have whole := (target.append (.behind opened defs) opened.apart).append (.fixed close) close.apart
  have keyed : (if t.primaryKey = [] then [] else [t.primaryKey.map String.toList]).flatten =
      t.primaryKey.map String.toList := by
    by_cases none : t.primaryKey = []
    · simp [none]
    · simp [none]
  have pieces : (createdBy t).map String.toList = (qualifiedBy t).map String.toList ++
      (t.columns.map (fun c => c.given.map String.toList) ++
        if t.primaryKey = [] then [] else [t.primaryKey.map String.toList]).flatten ++ [] := by
    rw [List.append_nil, List.flatten_append, keyed, createdBy, List.append_assoc, List.map_append,
      List.map_append, List.map_flatMap, List.flatMap_def]
  have text : createTableDump d t = "CREATE TABLE IF NOT EXISTS ".toList ++
      Backup.qualify d t.name t.schema ++ (" (\n".toList ++ joined ",\n" (t.columns.map (columnDump d) ++
        if t.primaryKey = [] then [] else [keyDump d t.primaryKey])) ++ "\n)".toList := by
    rw [← List.append_assoc _ " (\n".toList]
    rfl
  rw [pieces, text]
  exact whole

/-! ## Literals -/

/-- Read from outside quotes it is passed over, and it turns no text's inside out. -/
structure Closed (text : List Char) : Prop where
  outside : ∀ tail, Apart tail → quotes false (text ++ tail) = quotes false tail
  even : text.count '\'' % 2 = 0

namespace Closed

theorem fixed {text : List Char} (h : Fixed text) : Closed text where
  outside tail _ := quotes_fixed h false tail
  even := by
    have none : text.count '\'' = 0 := List.count_eq_zero.mpr fun mem => absurd (h _ mem) (by decide)
    rw [none]

theorem append {a b : List Char} (ha : Closed a) (hb : Closed b) (starts : Apart b) : Closed (a ++ b) where
  outside tail apart := by
    rw [List.append_assoc, ha.outside _ (starts.append apart), hb.outside tail apart]
  even := by
    have evenA := ha.even
    have evenB := hb.even
    rw [List.count_append]
    omega

/-- Behind text of the writer's own a literal may start with a sign. -/
theorem behind {a b : List Char} (ha : Fixed a) (hb : Closed b) : Closed (a ++ b) where
  outside tail apart := by
    rw [List.append_assoc, quotes_fixed ha]
    exact hb.outside tail apart
  even := by
    have evenA := (fixed ha).even
    have evenB := hb.even
    rw [List.count_append]
    omega

/-- Between two quotes, parts without quotes, and quotes in twos. -/
theorem quoted {parts : List (List Char)} (doubles : ∀ part ∈ parts, part = ['\'', '\''] ∨ '\'' ∉ part) :
    Closed ('\'' :: (parts.flatten ++ ['\''])) where
  outside tail _ := by
    have inner : ∀ rest : List Char,
        quotes true (parts.flatten ++ '\'' :: rest) = quotes false rest := by
      intro rest
      induction parts with
      | nil => simp [quotes]
      | cons part parts ih =>
        rw [List.forall_mem_cons] at doubles
        rw [List.flatten_cons, List.append_assoc]
        rcases doubles.1 with rfl | none
        · simpa [quotes] using ih doubles.2
        · rw [quotes_inside none]
          exact ih doubles.2
    simpa [quotes] using inner tail
  even := by
    have inner : parts.flatten.count '\'' % 2 = 0 := by
      induction parts with
      | nil => rfl
      | cons part parts ih =>
        rw [List.forall_mem_cons] at doubles
        have rest := ih doubles.2
        rw [List.flatten_cons, List.count_append]
        rcases doubles.1 with rfl | none
        · have here : ['\'', '\''].count '\'' = 2 := rfl
          omega
        · have here : part.count '\'' = 0 := List.count_eq_zero.mpr none
          omega
    rw [List.count_cons_self, List.count_append, List.count_singleton_self]
    omega

theorem join {separator : String} (sep : Fixed separator.toList) {texts : List (List Char)}
    (some_ : separator.toList ≠ []) (h : ∀ text ∈ texts, Closed text) :
    Closed (joined separator texts) := by
  unfold joined
  induction texts with
  | nil => exact fixed (by simp [Fixed])
  | cons text texts ih =>
    rw [List.forall_mem_cons] at h
    cases texts with
    | nil => simpa using h.1
    | cons next texts =>
      rw [List.intercalate_cons_cons, List.append_assoc]
      exact h.1.append (behind sep (ih h.2)) (sep.apart.append_of_ne_nil some_ _)

/-- A number or a word, whose signs stand apart. -/
theorem spelled {text : List Char}
    (chars : ∀ c ∈ text, c.isAlphanum = true ∨ c = '.' ∨ c = '+' ∨ c = '-')
    (signs : ¬ ['-', '-'] <:+: text) : Closed text := by
  have other : ∀ c ∈ text, c ≠ '\'' ∧ c ≠ ';' ∧ c ≠ '/' := by
    intro c mem
    refine ⟨?_, ?_, ?_⟩ <;> rintro rfl <;> revert mem <;> exact fun mem => absurd (chars _ mem) (by decide)
  refine ⟨fun tail apart => ?_, ?_⟩
  · clear chars
    induction text with
    | nil => rfl
    | cons c text ih =>
      obtain ⟨quote, semicolon, slash⟩ := other c List.mem_cons_self
      have single : ¬ (c = '-' ∧ (text ++ tail).head? = some '-') := by
        rintro ⟨rfl, next⟩
        obtain ⟨rest, rfl⟩ := List.head?_eq_some_iff.mp ((apart.head?_append text (.inl rfl)).mp next)
        exact signs ⟨[], rest, rfl⟩
      rw [List.cons_append, quotes, if_neg quote, if_neg]
      · exact ih (fun inside => signs (inside.trans (List.suffix_cons c text).isInfix))
          fun d mem => other d (List.mem_cons_of_mem _ mem)
      · rintro ⟨-, is | is | is⟩
        · exact semicolon is
        · exact single is
        · exact slash is.1
  · have none : text.count '\'' = 0 := List.count_eq_zero.mpr fun mem => (other _ mem).1 rfl
    rw [none]

end Closed

/-- The digits of an integer, with a sign at most. -/
theorem closed_integer (n : ℤ) : Closed (toString n).toList := by
  have digits : ∀ m : ℕ, ∀ c ∈ (toString m).toList, c.isDigit = true := by
    intro m c mem
    refine Nat.isDigit_of_mem_toDigits (b := 10) (n := m) (by decide) (by decide) ?_
    simpa using mem
  have noSign : ∀ m : ℕ, '-' ∉ (toString m).toList := by
    intro m mem
    exact absurd (digits m _ mem) (by decide)
  have shape : ∃ m : ℕ, (toString n).toList = (toString m).toList ∨
      (toString n).toList = '-' :: (toString m).toList := by
    cases n with
    | ofNat m => exact ⟨m, .inl rfl⟩
    | negSucc m => exact ⟨m + 1, .inr (by simp [Int.toString_eq_repr, Int.repr])⟩
  obtain ⟨m, is | is⟩ := shape
  · rw [is]
    refine .spelled (fun c mem => .inl (by simp [Char.isAlphanum, digits m c mem])) fun inside => ?_
    exact noSign m (inside.subset List.mem_cons_self)
  · rw [is]
    refine .spelled (fun c mem => ?_) fun inside => ?_
    · rcases List.mem_cons.mp mem with rfl | mem
      · exact .inr (.inr (.inr rfl))
      · exact .inl (by simp [Char.isAlphanum, digits m c mem])
    · rcases List.infix_cons_iff.mp inside with start | later
      · exact noSign m ((List.cons_prefix_cons.mp start).2.subset List.mem_cons_self)
      · exact noSign m (later.subset List.mem_cons_self)

/-- **A literal is read whole** wherever it starts outside quotes. -/
theorem Literal.closed (spell : Spelling) (d : Dialect) (l : Literal) : Closed (l.toText spell d) := by
  have text : ∀ s, Closed ('\'' :: (escapeStringLiteral d s ++ ['\''])) := by
    intro s
    cases d with
    | postgres | sqlite =>
      refine .quoted fun part mem => ?_
      obtain ⟨c, -, rfl⟩ := List.mem_map.mp mem
      by_cases quote : c = '\''
      · exact .inl (if_pos quote)
      · exact .inr (by simp [quote, Ne.symm quote])
    | mysql =>
      have both : double '\\' (double '\'' s) = (s.map fun c =>
          double '\\' (if c = '\'' then ['\'', '\''] else [c])).flatten := by
        rw [← List.flatMap_def]
        exact List.flatMap_assoc
      rw [escapeStringLiteral, both]
      refine .quoted fun part mem => ?_
      obtain ⟨c, -, rfl⟩ := List.mem_map.mp mem
      by_cases quote : c = '\''
      · exact .inl (by rw [if_pos quote]; rfl)
      · refine .inr ?_
        rw [if_neg quote]
        by_cases slash : c = '\\'
        · subst slash
          decide
        · simp [double, slash, Ne.symm quote]
  have digit : ∀ n < 16, '\'' ≠ Nat.digitChar n := by decide
  have bytes : ∀ data : List (BitVec 8), ∀ part ∈ data.map fun b =>
      [Nat.digitChar (b.toNat / 16), Nat.digitChar (b.toNat % 16)], part = ['\'', '\''] ∨ '\'' ∉ part := by
    intro data part mem
    obtain ⟨b, -, rfl⟩ := List.mem_map.mp mem
    have high : b.toNat / 16 < 16 := by have bound := b.isLt; omega
    have low : b.toNat % 16 < 16 := Nat.mod_lt _ (by decide)
    exact .inr (by simp [digit _ high, digit _ low])
  cases l with
  | null =>
    have word : Fixed "NULL".toList := by decide
    exact .fixed word
  | boolean b =>
    have word : ∀ d b, Fixed (booleanLiteral d b) := by
      intro d b
      cases d <;> cases b <;> decide
    exact .fixed (word d b)
  | number n => exact .spelled (spell.number_chars n) (spell.number_signs n)
  | integer n => exact closed_integer n
  | bytes data =>
    cases d with
    | postgres =>
      refine @Closed.quoted (['\\', 'x'] :: data.map _) fun part mem => ?_
      rcases List.mem_cons.mp mem with rfl | mem
      · decide
      · exact bytes data part mem
    | mysql | sqlite =>
      have marked : Fixed ['X'] := by decide
      exact .behind marked (.quoted (bytes data))
  | text s => exact text s.toList
  | json j => exact text (spell.json j)

/-! ## The statements of a dump -/

theorem isStatement_of {text mid : List Char} {c d : Char} (is : text = c :: (mid ++ [d]))
    (first : isBlank c = false) (last : isBlank d = false) (other : c ≠ ';') : IsStatement text where
  trimmed := by
    unfold trim
    rw [is, List.dropWhile_cons_of_neg (by simp [first]), ← List.cons_append,
      List.rdropWhile_concat_neg _ _ _ (by simp [last])]
  starts := ⟨c, mid ++ [d], is, first, other⟩

theorem isStatement_create (d : Dialect) (t : Table) : IsStatement (createTableDump d t) := by
  have text : ∃ mid, createTableDump d t = 'C' :: (mid ++ [')']) := by
    unfold createTableDump
    exact ⟨_, (List.append_assoc _ ['\n'] [')']).symm⟩
  obtain ⟨mid, is⟩ := text
  exact isStatement_of is (by decide) (by decide) (by decide)

variable {spell : Spelling} {d : Dialect}

theorem isStatement_insert {t : Table} {row : String → Value} {text : List Char}
    (dumped : insertDump spell d t row = some text) : IsStatement text := by
  obtain ⟨values, -, rfl⟩ := Option.map_eq_some_iff.mp dumped
  have start : ∃ mid, insertHead d t = 'I' :: mid := ⟨_, rfl⟩
  obtain ⟨mid, is⟩ := start
  rw [is, List.cons_append, List.cons_append]
  exact isStatement_of rfl (by decide) (by decide) (by decide)

/-- **A `CREATE TABLE` is plain** as what it is given pairs up. -/
theorem plain_create (d : Dialect) (t : Table) : Plain (createTableDump d t) ↔ PairUp (createdBy t) := by
  have reads := Reads.create d t false [] (by simp [Apart])
  rw [List.append_nil] at reads
  unfold Plain PairUp
  rw [reads]
  simp [quotes]

/-- What an `INSERT INTO` says before its values. -/
theorem quotes_insertHead (d : Dialect) (t : Table) (rest : List Char) :
    quotes false (insertHead d t ++ rest) =
      (((insertedBy t).map String.toList).foldlM quotes false).bind (quotes · rest) := by
  have word : Fixed "INSERT INTO ".toList := by decide
  have opened : Fixed " (".toList := by decide
  have close : Fixed ") VALUES (".toList := by decide
  have names : t.columns.map (fun c => quoteIdent d c.name) =
      (t.columns.map (·.name)).map (quoteIdent d) := by rw [List.map_map]; rfl
  have target := (Reads.qualify d t).behind word
  have reads := target.append ((Reads.names d (t.columns.map (·.name))).behind opened) opened.apart
  have text : insertHead d t ++ rest = "INSERT INTO ".toList ++ qualify d t.name t.schema ++
      (" (".toList ++ joined ", " ((t.columns.map (·.name)).map (quoteIdent d))) ++
        (") VALUES (".toList ++ rest) := by
    have regroup : ∀ a b c e f rest : List Char,
        a ++ b ++ c ++ e ++ f ++ rest = a ++ b ++ (c ++ e) ++ (f ++ rest) := by simp
    unfold insertHead
    rw [names]
    generalize "INSERT INTO ".toList = a
    generalize " (".toList = c
    generalize ") VALUES (".toList = f
    exact regroup a _ c _ f rest
  rw [text, reads false _ (close.apart.append_of_ne_nil (by decide) _), insertedBy, List.map_append]
  refine congrArg _ (funext fun inside => ?_)
  exact quotes_fixed close inside rest

/-- **An `INSERT INTO` is plain** as its names pair up, whatever its values. -/
theorem plain_insert {t : Table} {row : String → Value} {text : List Char}
    (dumped : insertDump spell d t row = some text) : Plain text ↔ PairUp (insertedBy t) := by
  obtain ⟨values, -, rfl⟩ := Option.map_eq_some_iff.mp dumped
  have comma : Fixed ", ".toList := by decide
  have literals : Closed (joined ", " (values.map (Literal.toText spell d))) := by
    refine .join comma (by decide) fun text mem => ?_
    obtain ⟨l, -, rfl⟩ := List.mem_map.mp mem
    exact l.closed spell d
  have paren : Fixed [')'] := by decide
  have rest := literals.append (.fixed paren) paren.apart
  unfold Plain PairUp
  rw [List.append_assoc, quotes_insertHead]
  cases ((insertedBy t).map String.toList).foldlM quotes false with
  | none => simp
  | some inside =>
    rw [Option.bind_some]
    cases inside with
    | false =>
      have passed := rest.outside [] (by simp [Apart])
      rw [List.append_nil] at passed
      rw [passed]
      simp [quotes]
    | true =>
      -- the values come in pairs, so what was open stays open
      have odd : quotes true (joined ", " (values.map (Literal.toText spell d)) ++ [')']) ≠ some false := by
        intro closes
        have parity := quotes_parity closes
        rw [if_pos rest.even] at parity
        cases parity
      simp [odd]

theorem mem_tableLines {t : Table} {lines : List (Option (List Char))}
    (dumped : tableLines spell d t = some lines) {s : List Char} :
    some s ∈ lines ↔
      s = createTableDump d t ∨ ∃ row ∈ t.rows, insertDump spell d t row = some s := by
  obtain ⟨inserts, each, rfl⟩ := Option.map_eq_some_iff.mp dumped
  have blank : some s ∉ if inserts = [] then [] else [none] := by
    by_cases none : inserts = []
    · simp [none]
    · simp [none]
  simp [blank, Lib.mem_mapM each]

theorem mem_statementsOf {tables : List Table} {lines : List (Option (List Char))}
    (dumped : dumpLines spell d tables = some lines) {s : List Char} :
    s ∈ statementsOf lines ↔
      ∃ t ∈ tables, s = createTableDump d t ∨ ∃ row ∈ t.rows, insertDump spell d t row = some s := by
  obtain ⟨parts, each, rfl⟩ := Option.map_eq_some_iff.mp dumped
  have line : s ∈ statementsOf parts.flatten ↔ ∃ part ∈ parts, some s ∈ part := by
    simp [statementsOf]
  rw [line]
  constructor
  · rintro ⟨part, mem, there⟩
    obtain ⟨t, table, written⟩ := (Lib.mem_mapM each).mp mem
    exact ⟨t, table, (mem_tableLines written).mp there⟩
  · rintro ⟨t, table, which⟩
    obtain ⟨part, written⟩ := Lib.isSome_of_mapM each table
    exact ⟨part, (Lib.mem_mapM each).mpr ⟨t, table, written⟩, (mem_tableLines written).mpr which⟩

/-- Every row that is dumped has a statement. -/
theorem insertDump_isSome {tables : List Table} {lines : List (Option (List Char))}
    (dumped : dumpLines spell d tables = some lines) {t : Table} (mem : t ∈ tables)
    {row : String → Value} (there : row ∈ t.rows) : ∃ s, insertDump spell d t row = some s := by
  obtain ⟨parts, each, -⟩ := Option.map_eq_some_iff.mp dumped
  obtain ⟨part, written⟩ := Lib.isSome_of_mapM each mem
  obtain ⟨inserts, rows, -⟩ := Option.map_eq_some_iff.mp written
  exact Lib.isSome_of_mapM rows there

/-- Lines that are joined: each but the first behind a line break. -/
theorem joined_lines (line : List Char) (lines : List (List Char)) :
    joined "\n" (line :: lines) = line ++ lines.flatMap ('\n' :: ·) := by
  unfold joined
  induction lines generalizing line with
  | nil => simp
  | cons next lines ih =>
    rw [List.intercalate_cons_cons, ih next, List.flatMap_cons, List.append_assoc]
    rfl

/-- A comment goes with its line break. -/
theorem scan_comment {line : List Char} (none : '\n' ∉ line) (rest : List Char) :
    scan .code ('-' :: '-' :: line ++ '\n' :: rest) [] = scan .code rest [] := by
  have passed : scan .line (line ++ '\n' :: rest) [] = scan .code rest [] := by
    induction line with
    | nil => simp [scan, read]
    | cons c line ih =>
      rw [List.mem_cons, not_or] at none
      have other : c ≠ '\n' := fun is => none.1 is.symm
      simpa [scan, read, other] using ih none.2
  rw [← passed]
  simp [scan, read]

/-- The comments on top of a dump are passed over. -/
theorem split_backupText {database : String} (oneLine : '\n' ∉ database.toList)
    (lines : List (Option (List Char))) :
    splitSqlStatements (backupText d database lines) = scan .code (script lines) [] := by
  let title := " Syncle SQL backup".toList
  let engine := " engine: ".toList ++ d.name.toList
  let name := " database: ".toList ++ database.toList
  have text : backupText d database lines = '-' :: '-' :: title ++ '\n' :: ('-' :: '-' :: engine ++
      '\n' :: ('-' :: '-' :: name ++ '\n' :: script lines)) := by
    have rest : (lines.map fun line => line.elim [] (· ++ [';'])).flatMap ('\n' :: ·) = script lines := by
      rw [List.flatMap_map]
      rfl
    have regroup : ∀ a b c e : List Char,
        a ++ ('\n' :: b ++ ('\n' :: c ++ ('\n' :: [] ++ e))) = a ++ '\n' :: (b ++ '\n' :: (c ++ '\n' :: e)) := by
      simp
    unfold backupText
    rw [List.cons_append, List.cons_append, List.cons_append, List.cons_append, List.nil_append,
      joined_lines, List.flatMap_cons, List.flatMap_cons, List.flatMap_cons, rest]
    exact regroup _ _ _ _
  have titleLine : '\n' ∉ title := by decide
  have engineLine : '\n' ∉ engine := by cases d <;> decide
  have nameLine : '\n' ∉ name := by
    have word : '\n' ∉ " database: ".toList := by decide
    exact fun mem => (List.mem_append.mp mem).elim word oneLine
  unfold splitSqlStatements
  rw [text, scan_comment titleLine, scan_comment engineLine, scan_comment nameLine]

/-- **The splitter gives back the statements of a dump if and only if** the names, types and defaults
of each `CREATE TABLE`, and the names of each `INSERT INTO`, pair up. -/
theorem splits_iff (spell : Spelling) (d : Dialect) {database : String}
    (oneLine : '\n' ∉ database.toList) {tables : List Table} {lines : List (Option (List Char))}
    (dumped : dumpLines spell d tables = some lines) :
    splitSqlStatements (backupText d database lines) = statementsOf lines ↔
      ∀ t ∈ tables, PairUp (createdBy t) ∧ (t.rows ≠ [] → PairUp (insertedBy t)) := by
  have statements : ∀ s ∈ statementsOf lines, IsStatement s := by
    intro s mem
    obtain ⟨t, -, rfl | ⟨row, -, insert⟩⟩ := (mem_statementsOf dumped).mp mem
    · exact isStatement_create d t
    · exact isStatement_insert insert
  rw [split_backupText oneLine, scan_script statements rfl]
  constructor
  · intro plain t mem
    refine ⟨?_, fun some_ => ?_⟩
    · exact (plain_create d t).mp (plain _ ((mem_statementsOf dumped).mpr ⟨t, mem, .inl rfl⟩))
    · obtain ⟨row, there⟩ := List.exists_mem_of_ne_nil t.rows some_
      obtain ⟨s, insert⟩ := insertDump_isSome dumped mem there
      exact (plain_insert insert).mp
        (plain s ((mem_statementsOf dumped).mpr ⟨t, mem, .inr ⟨row, there, insert⟩⟩))
  · intro paired s mem
    obtain ⟨t, here, rfl | ⟨row, there, insert⟩⟩ := (mem_statementsOf dumped).mp mem
    · exact (plain_create d t).mpr (paired t here).1
    · exact (plain_insert insert).mpr ((paired t here).2 (List.ne_nil_of_mem there))

namespace Menus

/-- Without numbers and documents. -/
def spelling : Spelling where
  number _ := ['0']
  json _ := ['0']
  number_chars _ c mem := by
    obtain rfl := List.mem_singleton.mp mem
    decide
  number_signs _ inside := absurd (inside.subset List.mem_cons_self) (by decide)

def dishes (column : String) : Table where
  name := "dishes"
  schema := ""
  columns := [{ name := column, dataType := "text", nullable := true, defaultValue := none }]
  primaryKey := []
  rows := [fun _ => .string "crème; it's -- /* brûlée"]

def guests : Table where
  name := "guests"
  schema := ""
  columns := [{ name := "name", dataType := "text", nullable := false, defaultValue := some "'nobody'" }]
  primaryKey := ["name"]
  rows := []

/-- Whatever the dish is called. -/
theorem dishes_split_back : ∃ lines, dumpLines spelling .postgres [dishes "dish", guests] = some lines ∧
    splitSqlStatements (backupText .postgres "menus" lines) = statementsOf lines := by
  obtain ⟨lines, dumped⟩ : ∃ lines, dumpLines spelling .postgres [dishes "dish", guests] = some lines :=
    ⟨_, rfl⟩
  refine ⟨lines, dumped, (splits_iff spelling .postgres (by decide) dumped).mpr fun t mem => ?_⟩
  rcases List.mem_pair.mp mem with rfl | rfl
  · exact ⟨by decide, fun _ => by decide⟩
  · exact ⟨by decide, fun _ => by decide⟩

/-- A column called `chef's`: nothing ends the two statements that name it. -/
theorem chef_runs_on : ¬ ∀ lines, dumpLines spelling .postgres [dishes "chef's", guests] = some lines →
    splitSqlStatements (backupText .postgres "menus" lines) = statementsOf lines := by
  intro always
  have split := always _ rfl
  revert split
  decide +kernel

end Menus

end Syncle.Backup
