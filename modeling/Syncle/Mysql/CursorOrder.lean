import Syncle.Lib.Decimal
import Syncle.Mysql.Binlog
import Syncle.Spool.RowCodec

/-!
# The order of the binlog cursors (`makeCursor`, `splitCursor`, `cursorAfter`)

A cursor is a text: a JSON object, or the compact form of a server that does not tell its UUID. Two
of them are compared by file name, then by position, then by row. The names are compared as texts,
"zero-padded binlog names compare lexically", and so they do until the number outgrows the padding:
`binlog.1000000` comes before `binlog.999999`.

JSON is kept as the tree its text spells. A compact cursor ends in a digit or in `:s`, so it is
never the text of a JSON object, whatever its file is called. A position is a whole number that a
double holds exactly.
-/

namespace Syncle.Mysql

open Lib

/-- The text of a cursor. -/
inductive CursorText where
  /-- `{f, p, r, s, u, g}`, each of which may be absent -/
  | json (f : Option String) (p r : Option Int) (s : Option Bool) (u g : Option String)
  /-- any other -/
  | text (chars : List Char)
  deriving DecidableEq

/-- `${n}`, of an integer. -/
def intText (n : Int) : List Char := (Spool.bigintText n).toList

def makeCursor (args : Cursor) : CursorText :=
  match args.serverUuid.filter (· ≠ "") with
  | none =>
    let compact := args.file.toList ++ ':' :: intText args.pos ++ ':' :: intText args.row
    .text (if args.isStart then compact ++ [':', 's'] else compact)
  | some u =>
    .json (some args.file) (some args.pos) (some args.row) (some args.isStart) (some u)
      (args.gtid.filter (· ≠ ""))

/-- What `splitCursor` returns. -/
structure CursorParts where
  file : String
  pos : Int
  row : Int
  isStart : Bool
  deriving DecidableEq

/-- `Number(text)`, of the text of an integer; none where it is not finite. -/
def numberOf (text : List Char) : Option Int :=
  if text = [] then some 0 else Spool.readBigint (String.ofList text)

/-- `parts.join(':')` -/
def joined (parts : List (List Char)) : String := String.ofList ([':'].intercalate parts)

/-- `file:pos`, the oldest form; or no position at all. -/
def splitOldest (parts : List (List Char)) (isStart : Bool) : CursorParts :=
  match parts.reverse with
  | last :: first :: more =>
    { file := joined (first :: more).reverse, pos := (numberOf last).getD 0, row := -1
      isStart := isStart }
  | _ => { file := joined parts, pos := 0, row := -1, isStart := isStart }

/-- The compact forms, without the `:s`. -/
def splitCompact (rest : List Char) (isStart : Bool) : CursorParts :=
  let parts := rest.splitOn ':'
  match parts.reverse with
  | row :: pos :: first :: more =>
    match numberOf row, numberOf pos with
    | some row, some pos =>
      { file := joined (first :: more).reverse, pos := pos, row := row, isStart := isStart }
    | _, _ => splitOldest parts isStart
  | _ => splitOldest parts isStart

def splitCursor : CursorText → CursorParts
  | .json f p r s _ _ =>
    { file := f.getD "", pos := p.getD 0, row := r.getD (-1), isStart := s = some true }
  | .text chars =>
    match chars.reverse with
    | 's' :: ':' :: rest => splitCompact rest.reverse true
    | _ => splitCompact chars false

/-- `a > b`, of two texts. -/
def textAfter (a b : String) : Bool := decide (codeUnits b.toList < codeUnits a.toList)

def cursorAfter (a : CursorText) : Option CursorText → Bool
  | none => true
  | some b =>
    if b = .text [] then true
    else
      let a := splitCursor a
      let b := splitCursor b
      if a.file ≠ b.file then textAfter a.file b.file
      else if a.pos ≠ b.pos then decide (b.pos < a.pos)
      else if a.isStart ≠ b.isStart then a.isStart
      else decide (b.row < a.row)

/-! ## The positions of a log -/

/-- `%s.%06lu`: the number takes as many digits as it needs, `width` at least. -/
def binlogName (base : String) (width n : ℕ) : String :=
  String.ofList (base.toList ++ '.' :: padStart width (Nat.toDigits 10 n))

/-- A position in the sequence of files: a row's number, and where its statement starts or, of a
cursor of the older kind, where its event ends. -/
structure Place where
  file : ℕ
  pos : ℕ
  isStart : Bool
  row : ℕ
  deriving DecidableEq

/-- The order of the log. At one offset, the event that ends there comes before the statement that
starts there. -/
def Place.before (a b : Place) : Prop :=
  a.file < b.file ∨ a.file = b.file ∧
    (a.pos < b.pos ∨ a.pos = b.pos ∧
      (a.isStart = false ∧ b.isStart = true ∨ a.isStart = b.isStart ∧ a.row < b.row))

/-- What a cursor tells besides its position. -/
structure Identity where
  serverUuid : Option String
  gtid : Option String

def Place.cursor (base : String) (width : ℕ) (place : Place) (server : Identity) : CursorText :=
  makeCursor
    { file := binlogName base width place.file, pos := place.pos, row := place.row
      isStart := place.isStart, serverUuid := server.serverUuid, gtid := server.gtid }

def Place.parts (base : String) (width : ℕ) (place : Place) : CursorParts :=
  { file := binlogName base width place.file, pos := place.pos, row := place.row
    isStart := place.isStart }

/-- How many digits the number of a file has. -/
def nameDigits (width n : ℕ) : ℕ := max width (Nat.toDigits 10 n).length

/-- Read as far as the earlier number has digits, the later one is not below it. -/
def Reaches (width m n : ℕ) : Prop :=
  m * 10 ^ (nameDigits width n - nameDigits width m) ≤ n

/-- Of two cursors, the first of the earlier position. -/
structure InOrder (earlier later : CursorText) : Prop where
  after : cursorAfter later (some earlier) = true
  notBefore : cursorAfter earlier (some later) = false

/-! ## Splitting what was made -/

theorem intText_eq (n : Int) :
    intText n = Nat.toDigits 10 n.natAbs ∨ intText n = '-' :: Nat.toDigits 10 n.natAbs := by
  unfold intText Spool.bigintText
  rw [Int.toString_eq_repr, Int.repr_eq_if]
  by_cases nonneg : 0 ≤ n
  · rw [if_pos nonneg, Nat.toList_repr]
    exact .inl (by rw [show n.natAbs = n.toNat from by omega])
  · rw [if_neg nonneg, String.toList_append, Nat.toList_repr]
    rw [show n.natAbs = (-n).toNat from by omega]
    exact .inr rfl

/-- It is a run of digits, with a sign perhaps. -/
theorem not_mem_intText {c : Char} (digit : c.isDigit = false) (sign : c ≠ '-') (n : Int) :
    c ∉ intText n := by
  have digits : c ∉ Nat.toDigits 10 n.natAbs := by
    intro h
    have hc := Nat.isDigit_of_mem_toDigits (by decide) (by decide) h
    simp [hc] at digit
  rcases intText_eq n with h | h
  · rw [h]
    exact digits
  · rw [h]
    simp [sign, digits]

theorem intText_ne_nil (n : Int) : intText n ≠ [] := by
  rcases intText_eq n with h | h <;> simp [h, Nat.toDigits_ne_nil]

@[simp] theorem numberOf_intText (n : Int) : numberOf (intText n) = some n := by
  rw [numberOf, if_neg (intText_ne_nil n), intText, String.ofList_toList]
  exact Spool.readBigint_bigintText n

/-- A text without a colon is a part by itself. -/
theorem splitOn_intText (n : Int) : (intText n).splitOn ':' = [intText n] :=
  List.splitOn_eq_singleton (not_mem_intText rfl (by decide) n)

theorem splitCompact_made (file : String) (pos row : Int) (isStart : Bool) :
    splitCompact (file.toList ++ ':' :: intText pos ++ ':' :: intText row) isStart =
      { file := file, pos := pos, row := row, isStart := isStart } := by
  have parts : (file.toList ++ ':' :: intText pos ++ ':' :: intText row).splitOn ':' =
      file.toList.splitOn ':' ++ [intText pos] ++ [intText row] := by
    rw [List.splitOn_append_cons_self, List.splitOn_append_cons_self, splitOn_intText,
      splitOn_intText]
  obtain ⟨first, more, split⟩ :=
    List.exists_cons_of_ne_nil
      (List.reverse_ne_nil_iff.mpr (List.splitOn_ne_nil ':' file.toList))
  have whole : joined (first :: more).reverse = file := by
    rw [joined, ← split, List.reverse_reverse, List.intercalate_splitOn, String.ofList_toList]
  simp only [splitCompact, parts, List.reverse_append, List.reverse_singleton,
    List.singleton_append, split, numberOf_intText, whole]

/-- A compact cursor that ends in its row has no `:s` at its end. -/
theorem splitCursor_compact (front : List Char) (row : Int) :
    splitCursor (.text (front ++ ':' :: intText row)) =
      splitCompact (front ++ ':' :: intText row) false := by
  simp only [splitCursor, List.reverse_append, List.reverse_cons]
  split
  · next rest h =>
    -- the last character of a number is none
    have last : (intText row).reverse ≠ [] := by simp [intText_ne_nil]
    obtain ⟨c, more, split⟩ := List.exists_cons_of_ne_nil last
    rw [split] at h
    obtain ⟨rfl, -⟩ := List.cons.inj h
    have mem : 's' ∈ intText row := by
      rw [← List.mem_reverse, split]
      exact List.mem_cons_self
    exact absurd mem (not_mem_intText rfl (by decide) row)
  · rfl

/-- **A cursor splits into what it was made of.** -/
theorem splitCursor_makeCursor (args : Cursor) :
    splitCursor (makeCursor args) =
      { file := args.file, pos := args.pos, row := args.row, isStart := args.isStart } := by
  unfold makeCursor
  split
  · cases start : args.isStart with
    | false =>
      simp only [Bool.false_eq_true, if_false]
      rw [splitCursor_compact, splitCompact_made]
    | true =>
      simp only [if_true, splitCursor]
      rw [List.reverse_append]
      simp only [List.reverse_cons, List.reverse_nil, List.nil_append, List.cons_append,
        List.reverse_reverse, splitCompact_made]
  · simp [splitCursor]

/-! ## The names -/

section Names

variable {base : String} {width m n : ℕ}

theorem toList_binlogName (base : String) (width n : ℕ) :
    (binlogName base width n).toList =
      base.toList ++ '.' :: padStart width (Nat.toDigits 10 n) :=
  String.toList_ofList

theorem length_toDigits_mono (h : m ≤ n) :
    (Nat.toDigits 10 m).length ≤ (Nat.toDigits 10 n).length := by
  have pos : 0 < (Nat.toDigits 10 n).length := Nat.length_toDigits_pos
  rw [Nat.length_toDigits_le_iff (by decide) pos]
  exact Nat.lt_of_le_of_lt h ((Nat.length_toDigits_le_iff (by decide) pos).mp (Nat.le_refl _))

theorem append_lt_append_iff (front a b : List ℕ) : front ++ a < front ++ b ↔ a < b := by
  induction front with
  | nil => rfl
  | cons c front ih => rw [List.cons_append, List.cons_append, List.cons_lt_cons_self, ih]

/-- **The names are in the order of their numbers as far as the earlier one has digits.** -/
theorem textAfter_binlogName (base : String) (h : m < n) :
    textAfter (binlogName base width n) (binlogName base width m) = true ↔ Reaches width m n := by
  have len : (padStart width (Nat.toDigits 10 m)).length ≤
      (padStart width (Nat.toDigits 10 n)).length := by
    have := length_toDigits_mono h.le
    simp only [length_padStart]
    omega
  unfold textAfter
  rw [decide_eq_true_iff, toList_binlogName, toList_binlogName, codeUnits_append, codeUnits_append,
    append_lt_append_iff]
  show codeUnits (['.'] ++ padStart width (Nat.toDigits 10 m)) <
    codeUnits (['.'] ++ padStart width (Nat.toDigits 10 n)) ↔ _
  rw [codeUnits_append, codeUnits_append ['.'], append_lt_append_iff,
    codeUnits_digits fun _ => isDigit_padStart, codeUnits_digits fun _ => isDigit_padStart,
    digits_lt_iff (fun _ => isDigit_padStart) (fun _ => isDigit_padStart) len,
    ofDigitChars_padStart, ofDigitChars_padStart]
  simp only [length_padStart] at len ⊢
  unfold Reaches nameDigits
  rcases Nat.lt_or_ge (max width (Nat.toDigits 10 m).length)
    (max width (Nat.toDigits 10 n).length) with shorter | same
  · have other := Nat.ne_of_lt shorter
    simp [shorter, other]
  · have equal := Nat.le_antisymm len same
    rw [equal]
    simp [h, h.le]

theorem binlogName_inj (h : binlogName base width m = binlogName base width n) : m = n := by
  have lists := congrArg String.toList h
  rw [toList_binlogName, toList_binlogName, List.append_cancel_left_eq, List.cons.injEq] at lists
  have numbers := congrArg (fun digits => Nat.ofDigitChars 10 digits 0) lists.2
  simpa using numbers

theorem not_textAfter_of_textAfter {a b : String} (h : textAfter a b = true) :
    textAfter b a = false := by
  unfold textAfter at h ⊢
  rw [decide_eq_true_iff] at h
  rw [decide_eq_false_iff_not]
  exact Std.Asymm.asymm _ _ h

end Names

/-! ## The order -/

section Order

variable {base : String} {width : ℕ}

theorem splitCursor_cursor (place : Place) (server : Identity) :
    splitCursor (place.cursor base width server) = place.parts base width :=
  splitCursor_makeCursor _

theorem cursor_ne_empty (place : Place) (server : Identity) :
    place.cursor base width server ≠ .text [] := by
  unfold Place.cursor makeCursor
  split
  · dsimp only
    split <;> simp
  · simp

/-- Two cursors compare as what they were made of. -/
theorem cursorAfter_cursor (p q : Place) (sp sq : Identity) :
    cursorAfter (q.cursor base width sq) (some (p.cursor base width sp)) =
      if q.file = p.file then
        if q.pos = p.pos then
          if q.isStart = p.isStart then decide (p.row < q.row) else q.isStart
        else decide (p.pos < q.pos)
      else textAfter (binlogName base width q.file) (binlogName base width p.file) := by
  rw [cursorAfter, if_neg (cursor_ne_empty p sp)]
  simp only [splitCursor_cursor, Place.parts]
  by_cases file : q.file = p.file
  · simp [file]
  · have names : binlogName base width q.file ≠ binlogName base width p.file :=
      fun h => file (binlogName_inj h)
    simp [file, names]

/-- Two positions, the first before the second, and their cursors. -/
structure KeepsOrder (base : String) (width : ℕ) (p q : Place) (sp sq : Identity) : Prop where
  inOrder : InOrder (p.cursor base width sp) (q.cursor base width sq)
  earlier : splitCursor (p.cursor base width sp) = p.parts base width
  later : splitCursor (q.cursor base width sq) = q.parts base width

/-- **The cursors are in the order of the log exactly as far as the digits of their files reach.**
Whatever server they tell, and in whichever form. -/
theorem keepsOrder_iff_reaches {p q : Place} (before : p.before q) (sp sq : Identity) :
    KeepsOrder base width p q sp sq ↔ Reaches width p.file q.file := by
  have after : cursorAfter (q.cursor base width sq) (some (p.cursor base width sp)) = _ :=
    cursorAfter_cursor p q sp sq
  have back : cursorAfter (p.cursor base width sp) (some (q.cursor base width sq)) = _ :=
    cursorAfter_cursor q p sq sp
  rcases before with files | ⟨file, rest⟩
  · have later : q.file ≠ p.file := by omega
    rw [if_neg later] at after
    rw [if_neg (Ne.symm later)] at back
    rw [← textAfter_binlogName base files]
    constructor
    · intro keeps
      rw [← after]
      exact keeps.inOrder.after
    · intro names
      refine ⟨⟨after.trans names, back.trans (not_textAfter_of_textAfter names)⟩, ?_, ?_⟩
      · exact splitCursor_cursor p sp
      · exact splitCursor_cursor q sq
  · rw [if_pos file.symm] at after
    rw [if_pos file] at back
    have reaches : Reaches width p.file q.file := by simp [Reaches, file]
    refine iff_of_true ⟨⟨after.trans ?_, back.trans ?_⟩, splitCursor_cursor p sp,
      splitCursor_cursor q sq⟩ reaches
    · rcases rest with pos | ⟨pos, ⟨was, is⟩ | ⟨form, row⟩⟩
      · rw [if_neg (by omega)]
        exact decide_eq_true pos
      · simp [pos, was, is]
      · simp [pos, form, row]
    · rcases rest with pos | ⟨pos, ⟨was, is⟩ | ⟨form, row⟩⟩
      · rw [if_neg (by omega)]
        exact decide_eq_false (by omega)
      · simp [pos, was, is]
      · simp [pos, form, row.le]

end Order

/-- Between two rotations that gain no digit nothing is out of order. -/
theorem reaches_of_sameDigits {width m n : ℕ} (h : m ≤ n)
    (same : nameDigits width n = nameDigits width m) : Reaches width m n := by
  simp [Reaches, same, h]

/-- A server that tells nothing of itself. -/
def Identity.unknown : Identity where
  serverUuid := none
  gtid := none

/-- The first statement of `binlog.1000000`, and one of `binlog.999999`. -/
theorem rotation_outOfOrder :
    Place.before ⟨999999, 4, true, 0⟩ ⟨1000000, 4, true, 0⟩ ∧
      ¬ KeepsOrder "binlog" 6 ⟨999999, 4, true, 0⟩ ⟨1000000, 4, true, 0⟩ .unknown .unknown ∧
      cursorAfter (Place.cursor "binlog" 6 ⟨999999, 4, true, 0⟩ .unknown)
          (some (Place.cursor "binlog" 6 ⟨1000000, 4, true, 0⟩ .unknown)) = true := by
  have back : cursorAfter (Place.cursor "binlog" 6 ⟨999999, 4, true, 0⟩ .unknown)
      (some (Place.cursor "binlog" 6 ⟨1000000, 4, true, 0⟩ .unknown)) = true := by
    rw [cursorAfter_cursor]
    decide +kernel
  refine ⟨.inl (by decide), fun keeps => ?_, back⟩
  have notBefore := keeps.inOrder.notBefore
  rw [back] at notBefore
  cases notBefore

/-- A row of one file, and the first row of the next. -/
theorem keepsOrder_next_file :
    (Place.before ⟨7, 4, true, 1⟩ ⟨8, 4, true, 0⟩ ∧ Reaches 6 7 8) ∧
      KeepsOrder "binlog" 6 ⟨7, 4, true, 1⟩ ⟨8, 4, true, 0⟩ .unknown .unknown :=
  have before : Place.before ⟨7, 4, true, 1⟩ ⟨8, 4, true, 0⟩ := .inl (by decide)
  have reaches : Reaches 6 7 8 := reaches_of_sameDigits (by decide) rfl
  ⟨⟨before, reaches⟩, (keepsOrder_iff_reaches before .unknown .unknown).mpr reaches⟩

end Syncle.Mysql
