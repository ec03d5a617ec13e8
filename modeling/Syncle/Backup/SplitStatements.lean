import Mathlib.Algebra.Order.Ring.Nat
import Mathlib.Data.List.DropRight
import Mathlib.Tactic.Common

/-!
# Splitting a script (`splitSqlStatements`)

The splitter reads one character at a time. It knows strings in single quotes and the two kinds of
comments; a double quote and a backtick are characters like any other.

A script of lines, each of them blank or a statement and its semicolon, comes apart into the
statements if and only if in each of them the single quotes pair up and none of `;`, `--` and `/*`
stands outside the pairs (`scan_script`). The converse counts what is not blank: a comment takes two
such characters with it, which no statement of the right length makes up for.
-/

namespace Syncle.Backup

/-! ## The splitter -/

/-- What `String.prototype.trim` takes off. -/
def isBlank (c : Char) : Bool :=
  c ∈ ['\t', '\n', '\u000B', '\u000C', '\r', ' ', '\u00A0', '\u1680', '\u2028', '\u2029', '\u202F',
    '\u205F', '\u3000', '\uFEFF'] || (0x2000 ≤ c.toNat && c.toNat ≤ 0x200A)

@[grind =]
def trim (text : List Char) : List Char := (text.dropWhile isBlank).rdropWhile isBlank

/-- Where in its text the splitter stands. -/
inductive Mode where
  | code
  /-- `inSingle` -/
  | single
  /-- …and at the second of two quotes -/
  | doubled
  /-- up to the end of the line -/
  | line
  /-- at the star that opens a comment, inside the comment, and at the slash that closes it -/
  | opened | block | closed
  deriving DecidableEq

/-- What becomes of a character: it goes to the statement, to nothing, or it ends the statement. -/
inductive Use where
  | keep | drop | cut
  deriving DecidableEq

/-- One character, by the one behind it. -/
@[grind =]
def read : Mode → Char → Option Char → Mode × Use
  | .code, c, next =>
    if c = '\'' then (.single, .keep)
    else if c = '-' ∧ next = some '-' then (.line, .drop)
    else if c = '/' ∧ next = some '*' then (.opened, .drop)
    else if c = ';' then (.code, .cut)
    else (.code, .keep)
  | .single, c, next =>
    if c = '\'' then if next = some '\'' then (.doubled, .keep) else (.code, .keep)
    else (.single, .keep)
  | .doubled, _, _ => (.single, .keep)
  -- the line break goes as well: the loop stops at it, and steps over it
  | .line, c, _ => if c = '\n' then (.code, .drop) else (.line, .drop)
  | .opened, _, _ => (.block, .drop)
  | .block, c, next => if c = '*' ∧ next = some '/' then (.closed, .drop) else (.block, .drop)
  | .closed, _, _ => (.code, .drop)

/-- `if (cur.trim()) out.push(cur.trim())` -/
@[grind =]
def push (cur : List Char) (out : List (List Char)) : List (List Char) :=
  if trim cur = [] then out else trim cur :: out

@[grind =]
def scan : Mode → List Char → List Char → List (List Char)
  | _, [], cur => push cur []
  | mode, c :: rest, cur =>
    match read mode c rest.head? with
    | (next, .keep) => scan next rest (cur ++ [c])
    | (next, .drop) => scan next rest cur
    | (next, .cut) => push cur (scan next rest [])

def splitSqlStatements (sql : List Char) : List (List Char) := scan .code sql []

/-! ## Quotes that pair up -/

/-- Whether a text, read from inside a pair of quotes or outside, ends inside one; none where `;`,
`--` or `/*` stands outside. -/
@[grind =]
def quotes : Bool → List Char → Option Bool
  | inside, [] => some inside
  | inside, c :: rest =>
    if c = '\'' then quotes (!inside) rest
    else if inside = false ∧ (c = ';' ∨ (c = '-' ∧ rest.head? = some '-') ∨
        (c = '/' ∧ rest.head? = some '*')) then none
    else quotes inside rest

/-- Its quotes pair up, and it has no end of a statement and no comment outside them. -/
def Plain (text : List Char) : Prop := quotes false text = some false

instance (text : List Char) : Decidable (Plain text) :=
  inferInstanceAs (Decidable (quotes false text = some false))

/-- What a text behind one that is read must not start with, lest a comment opens between them. -/
@[grind =]
def Apart (text : List Char) : Prop := ∀ c ∈ text.head?, c ≠ '-' ∧ c ≠ '*'

/-- So what the splitter sees behind a text's last character makes no difference to it. -/
theorem Apart.head?_append {tail : List Char} (apart : Apart tail) (rest : List Char) {d : Char}
    (which : d = '-' ∨ d = '*') : (rest ++ tail).head? = some d ↔ rest.head? = some d := by
  cases rest with
  | cons e rest => rfl
  | nil =>
    refine ⟨fun here => ?_, fun here => by simp at here⟩
    have never := apart d here
    rcases which with rfl | rfl
    · exact absurd rfl never.1
    · exact absurd rfl never.2

/-- Two texts, one after the other. -/
theorem quotes_append (inside : Bool) (text : List Char) {tail : List Char} (apart : Apart tail) :
    quotes inside (text ++ tail) = (quotes inside text).bind (quotes · tail) := by
  induction text generalizing inside with
  | nil => rfl
  | cons c rest ih =>
    simp only [List.cons_append, quotes, apart.head?_append rest (.inl rfl),
      apart.head?_append rest (.inr rfl)]
    split_ifs
    · exact ih _
    · rfl
    · exact ih _

/-- Every quote turns a text's inside out. -/
theorem quotes_parity {inside after : Bool} {text : List Char} (h : quotes inside text = some after) :
    after = if text.count '\'' % 2 = 0 then inside else !inside := by
  induction text generalizing inside with
  | nil => simpa [quotes, eq_comm] using h
  | cons c rest ih =>
    rw [quotes] at h
    split_ifs at h with quote
    · have more := ih h
      subst quote
      rw [more, List.count_cons_self]
      rcases Nat.mod_two_eq_zero_or_one (rest.count '\'') with even | odd
      · rw [if_pos even, if_neg (by omega)]
      · rw [if_neg (by omega), if_pos (by omega), Bool.not_not]
    · rw [List.count_cons_of_ne quote]
      exact ih h

/-- A text without quotes is passed over inside a pair. -/
theorem quotes_inside {text : List Char} (none : '\'' ∉ text) (rest : List Char) :
    quotes true (text ++ rest) = quotes true rest := by
  induction text with
  | nil => rfl
  | cons c text ih =>
    rw [List.mem_cons, not_or] at none
    rw [List.cons_append, quotes, if_neg fun is => none.1 is.symm, if_neg (by simp)]
    exact ih none.2

/-! ## What is not blank -/

def weight (text : List Char) : ℕ := text.countP fun c => !isBlank c

@[simp] theorem weight_nil : weight [] = 0 := rfl

@[simp] theorem weight_append (a b : List Char) : weight (a ++ b) = weight a + weight b :=
  List.countP_append

@[simp] theorem weight_cons (c : Char) (rest : List Char) :
    weight (c :: rest) = weight rest + if isBlank c then 0 else 1 := by
  cases blank : isBlank c with
  | true => simp [weight, blank]
  | false => simp [weight, blank]

theorem weight_eq_zero {text : List Char} : weight text = 0 ↔ ∀ c ∈ text, isBlank c = true := by
  simp [weight, List.countP_eq_zero]

@[simp] theorem weight_trim (text : List Char) : weight (trim text) = weight text := by
  have front : weight (text.dropWhile isBlank) = weight text := by
    conv_rhs => rw [← List.takeWhile_append_dropWhile (p := isBlank) (l := text), weight_append]
    rw [weight_eq_zero.mpr fun c mem => List.mem_takeWhile_imp mem, Nat.zero_add]
  have back : weight (trim text) = weight (text.dropWhile isBlank) := by
    conv_rhs => rw [← List.rdropWhile_append_rtakeWhile (p := isBlank) (l := text.dropWhile isBlank),
      weight_append]
    rw [weight_eq_zero.mpr fun c mem => List.mem_rtakeWhile_imp mem, Nat.add_zero]
    rfl
  rw [back, front]

theorem trim_eq_nil {text : List Char} : trim text = [] ↔ weight text = 0 := by
  constructor
  · intro none
    rw [← weight_trim, none, weight_nil]
  · intro none
    have blank := weight_eq_zero.mp none
    have front : text.dropWhile isBlank = [] := List.dropWhile_eq_nil_iff.mpr blank
    simp [trim, front]

theorem push_of_weight {cur : List Char} (some_ : 0 < weight cur) (out : List (List Char)) :
    push cur out = trim cur :: out := by
  unfold push
  rw [if_neg fun none => Nat.ne_of_gt some_ (trim_eq_nil.mp none)]

theorem push_of_blank {cur : List Char} (blank : weight cur = 0) (out : List (List Char)) :
    push cur out = out := by
  unfold push
  rw [if_pos (trim_eq_nil.mpr blank)]

/-- The size of an output: what its statements weigh, and one for each semicolon. -/
@[grind =]
def size (out : List (List Char)) : ℕ := (out.map weight).sum + out.length

@[simp] theorem size_nil : size [] = 0 := rfl

@[simp] theorem size_cons (s : List Char) (out : List (List Char)) :
    size (s :: out) = weight s + 1 + size out := by
  simp only [size, List.map_cons, List.sum_cons, List.length_cons]
  omega

theorem size_push_le (cur : List Char) (out : List (List Char)) :
    size (push cur out) ≤ weight cur + 1 + size out := by
  unfold push
  split
  · omega
  · rw [size_cons, weight_trim]

/-- Only a semicolon ends a statement. -/
theorem semicolon_of_cut {mode next : Mode} {c : Char} {after : Option Char}
    (cut : read mode c after = (next, .cut)) : c = ';' := by
  cases mode with
  | code =>
    by_contra other
    simp only [read, if_neg other] at cut
    split_ifs at cut <;> simp at cut
  | single | line | block =>
    simp only [read] at cut
    split_ifs at cut <;> simp at cut
  | doubled | opened | closed => simp [read] at cut

/-- **An output is no larger than what was read**, but for the last semicolon. -/
theorem size_scan_le (mode : Mode) (text cur : List Char) :
    size (scan mode text cur) ≤ weight cur + weight text + 1 := by
  induction text generalizing mode cur with
  | nil =>
    have last := size_push_le cur []
    rw [size_nil] at last
    rw [scan, weight_nil]
    omega
  | cons c rest ih =>
    rw [scan, weight_cons]
    split
    case h_1 next _ =>
      have more := ih next (cur ++ [c])
      rw [weight_append, weight_cons, weight_nil] at more
      omega
    case h_2 next _ =>
      have more := ih next cur
      omega
    case h_3 next cut =>
      obtain rfl := semicolon_of_cut cut
      have more := ih next []
      have here := size_push_le cur (scan next rest [])
      have seen : isBlank ';' = false := by decide
      simp only [weight_nil, seen, Bool.false_eq_true, if_false] at more ⊢
      omega

/-- **What has been gathered is in the first statement** that comes. -/
theorem head_scan {mode : Mode} {text cur : List Char} (some_ : 0 < weight cur) :
    ∃ s out, scan mode text cur = s :: out ∧ weight cur ≤ weight s := by
  induction text generalizing mode cur with
  | nil => exact ⟨_, _, push_of_weight some_ _, (weight_trim cur).ge⟩
  | cons c rest ih =>
    rw [scan]
    split
    case h_1 next _ =>
      have more : weight cur ≤ weight (cur ++ [c]) := by simp
      obtain ⟨s, out, read, le⟩ := @ih next (cur ++ [c]) (Nat.lt_of_lt_of_le some_ more)
      exact ⟨s, out, read, more.trans le⟩
    case h_2 next _ => exact ih some_
    case h_3 next _ => exact ⟨_, _, push_of_weight some_ _, (weight_trim cur).ge⟩

/-! ## Reading a text on -/

/-- The splitter inside a pair of quotes, and outside. -/
def modeOf (inside : Bool) : Mode := if inside then .single else .code

/-- A quote inside a pair closes it, also the first of two: the second opens the next pair. -/
theorem scan_single_quote (rest cur : List Char) :
    scan .single ('\'' :: rest) cur = scan .code rest (cur ++ ['\'']) := by
  cases rest with
  | nil => rfl
  | cons c rest =>
    by_cases quote : c = '\''
    · subst quote
      simp [scan, read]
    · simp [scan, read, quote]

theorem scan_quote (inside : Bool) (rest cur : List Char) :
    scan (modeOf inside) ('\'' :: rest) cur = scan (modeOf !inside) rest (cur ++ ['\'']) := by
  cases inside with
  | true => exact scan_single_quote rest cur
  | false => simp [modeOf, scan, read]

/-- What the quotes of a text say, the splitter does: it reads on to the end of the text, or to a
semicolon, or to the two characters that open a comment. -/
@[grind =]
def Follows (inside : Bool) (text tail cur : List Char) : Prop :=
  match quotes inside text with
  | some after => scan (modeOf inside) (text ++ tail) cur = scan (modeOf after) tail (cur ++ text)
  | none =>
    (∃ pre rest, text = pre ++ ';' :: rest ∧ scan (modeOf inside) (text ++ tail) cur =
      push (cur ++ pre) (scan .code (rest ++ tail) [])) ∨
    (∃ pre c d rest mode, text = pre ++ c :: d :: rest ∧ isBlank c = false ∧ isBlank d = false ∧
      scan (modeOf inside) (text ++ tail) cur = scan mode (rest ++ tail) (cur ++ pre))

/-- Behind a character that goes to the statement. -/
theorem Follows.cons {inside after : Bool} {c : Char} {rest tail cur : List Char}
    (same : quotes inside (c :: rest) = quotes after rest)
    (step : scan (modeOf inside) (c :: (rest ++ tail)) cur =
      scan (modeOf after) (rest ++ tail) (cur ++ [c]))
    (follows : Follows after rest tail (cur ++ [c])) : Follows inside (c :: rest) tail cur := by
  have joined : ∀ pre : List Char, cur ++ [c] ++ pre = cur ++ c :: pre := by simp
  unfold Follows at follows ⊢
  rw [same, List.cons_append, step]
  cases result : quotes after rest with
  | some last =>
    rw [result] at follows
    simpa only [joined] using follows
  | none =>
    rw [result] at follows
    rcases follows with ⟨pre, more, rfl, scanned⟩ | ⟨pre, d, e, more, mode, rfl, hd, he, scanned⟩
    · exact .inl ⟨c :: pre, more, rfl, by simpa only [joined] using scanned⟩
    · exact .inr ⟨c :: pre, d, e, more, mode, rfl, hd, he, by simpa only [joined] using scanned⟩

theorem follows (inside : Bool) (text tail cur : List Char)
    (apart : Apart tail) : Follows inside text tail cur := by
  induction text generalizing inside cur with
  | nil => simp [Follows, quotes]
  | cons c rest ih =>
    by_cases quote : c = '\''
    · subst quote
      exact .cons (by simp [quotes]) (scan_quote inside (rest ++ tail) cur) (ih _ _)
    · cases inside with
      | true =>
        refine .cons ?_ ?_ (ih true _)
        · simp [quotes, quote]
        · simp [modeOf, scan, read, quote]
      | false =>
        by_cases semicolon : c = ';'
        · subst semicolon
          refine Or.inl ⟨[], rest, rfl, ?_⟩
          simp [modeOf, scan, read]
        · by_cases dash : c = '-' ∧ rest.head? = some '-'
          · obtain ⟨rfl, behind⟩ := dash
            obtain ⟨more, rfl⟩ := List.head?_eq_some_iff.mp behind
            refine Or.inr ⟨[], '-', '-', more, .line, rfl, by decide, by decide, ?_⟩
            simp [modeOf, scan, read]
          · by_cases slash : c = '/' ∧ rest.head? = some '*'
            · obtain ⟨rfl, behind⟩ := slash
              obtain ⟨more, rfl⟩ := List.head?_eq_some_iff.mp behind
              refine Or.inr ⟨[], '/', '*', more, .block, rfl, by decide, by decide, ?_⟩
              simp [modeOf, scan, read]
            · have noDash : ¬ (c = '-' ∧ (rest ++ tail).head? = some '-') :=
                fun both => dash ⟨both.1, (apart.head?_append rest (.inl rfl)).mp both.2⟩
              have noSlash : ¬ (c = '/' ∧ (rest ++ tail).head? = some '*') :=
                fun both => slash ⟨both.1, (apart.head?_append rest (.inr rfl)).mp both.2⟩
              refine .cons ?_ ?_ (ih false _)
              · rw [quotes, if_neg quote, if_neg (by simp [semicolon, dash, slash])]
              · simp only [modeOf, scan, read, if_neg quote, if_neg noDash, if_neg noSlash,
                  if_neg semicolon, Bool.false_eq_true, if_false]

/-! ## A script -/

/-- A statement as a script has it: from its first letter to its last. -/
structure IsStatement (text : List Char) : Prop where
  trimmed : trim text = text
  starts : ∃ c rest, text = c :: rest ∧ isBlank c = false ∧ c ≠ ';'

/-- Lines, each behind a line break: blank ones, and statements with their semicolon. -/
def script (lines : List (Option (List Char))) : List Char :=
  lines.flatMap fun line => '\n' :: line.elim [] (· ++ [';'])

/-- The statements of its lines, without their semicolons. -/
def statementsOf (lines : List (Option (List Char))) : List (List Char) := lines.filterMap id

@[simp] theorem statementsOf_nil : statementsOf [] = [] := rfl

@[simp] theorem statementsOf_none (lines : List (Option (List Char))) :
    statementsOf (none :: lines) = statementsOf lines := rfl

@[simp] theorem statementsOf_some (s : List Char) (lines : List (Option (List Char))) :
    statementsOf (some s :: lines) = s :: statementsOf lines := rfl

/-- A script weighs what its statements do, and their semicolons. -/
theorem weight_script (lines : List (Option (List Char))) :
    weight (script lines) = size (statementsOf lines) := by
  induction lines with
  | nil => rfl
  | cons line lines ih =>
    have blank : isBlank '\n' = true := by decide
    have seen : isBlank ';' = false := by decide
    cases line with
    | none => simpa [script, blank] using ih
    | some s =>
      have here : weight (script (some s :: lines)) = weight s + 1 + weight (script lines) := by
        simp only [script, List.flatMap_cons, Option.elim_some, weight_append, weight_cons, weight_nil,
          blank, seen, if_true, Bool.false_eq_true, if_false]
      rw [here, ih, statementsOf_some, size_cons]

theorem trim_append {blank : List Char} (none : weight blank = 0) (text : List Char) :
    trim (blank ++ text) = trim text := by
  unfold trim
  rw [List.dropWhile_append_of_pos (weight_eq_zero.mp none)]

/-- **One statement**, read from behind blanks: it is what comes first if and only if it is plain, and
then the splitter goes on behind its semicolon. -/
theorem scan_statement {s gap : List Char} (statement : IsStatement s) (blank : weight gap = 0)
    (lines : List (Option (List Char))) :
    scan .code (s ++ ';' :: script lines) gap = s :: statementsOf lines ↔
      Plain s ∧ scan .code (script lines) [] = statementsOf lines := by
  have whole := follows false s (';' :: script lines) gap (by simp [Apart])
  unfold Follows at whole
  unfold Plain
  cases result : quotes false s with
  | some inside =>
    simp only [result] at whole
    cases inside with
    | false =>
      -- the semicolon stands outside
      have heavy : 0 < weight (gap ++ s) := by
        obtain ⟨c, rest, rfl, seen, -⟩ := statement.starts
        simp only [weight_append, weight_cons, seen, Bool.false_eq_true, if_false]
        omega
      have cut : scan .code (s ++ ';' :: script lines) gap = s :: scan .code (script lines) [] := by
        calc scan .code (s ++ ';' :: script lines) gap
            = scan .code (';' :: script lines) (gap ++ s) := whole
          _ = push (gap ++ s) (scan .code (script lines) []) := by simp [scan, read]
          _ = s :: scan .code (script lines) [] := by
            rw [push_of_weight heavy, trim_append blank, statement.trimmed]
      simp [cut]
    | true =>
      -- the semicolon goes to the statement, which comes out too heavy
      have kept : scan .code (s ++ ';' :: script lines) gap =
          scan .single (script lines) (gap ++ s ++ [';']) := by
        rw [show scan .code (s ++ ';' :: script lines) gap = _ from whole]
        simp [modeOf, scan, read]
      have heavy : weight s < weight (gap ++ s ++ [';']) := by
        have seen : isBlank ';' = false := by decide
        simp only [weight_append, weight_cons, weight_nil, seen, Bool.false_eq_true, if_false]
        omega
      obtain ⟨first, out, is, le⟩ : ∃ first out, scan .single (script lines) (gap ++ s ++ [';']) =
          first :: out ∧ weight (gap ++ s ++ [';']) ≤ weight first :=
        head_scan (Nat.zero_lt_of_lt heavy)
      rw [kept, is]
      simp only [List.cons.injEq, Option.some.injEq, Bool.true_eq_false, false_and, iff_false, not_and]
      rintro rfl
      omega
  | none =>
    simp only [result] at whole
    simp only [reduceCtorEq, false_and, iff_false]
    intro same
    rcases whole with ⟨pre, rest, is, cut⟩ | ⟨pre, c, d, rest, mode, is, hc, hd, dropped⟩
    · -- what is cut off is too light
      have heavy : 0 < weight (gap ++ pre) := by
        obtain ⟨c, more, starts, seen, other⟩ := statement.starts
        rw [starts] at is
        cases pre with
        | nil => exact absurd (List.cons.inj is).1 other
        | cons e pre =>
          obtain rfl := (List.cons.inj is).1
          simp only [weight_append, weight_cons, seen, Bool.false_eq_true, if_false]
          omega
      have first : trim (gap ++ pre) = s := by
        have both : push (gap ++ pre) (scan .code (rest ++ ';' :: script lines) []) =
            s :: statementsOf lines := cut.symm.trans same
        rw [push_of_weight heavy] at both
        exact (List.cons.inj both).1
      have light : weight (gap ++ pre) = weight s := by rw [← weight_trim, first]
      have seen : isBlank ';' = false := by decide
      rw [is] at light
      simp [blank, seen] at light
    · -- what is left to read is too little
      have bound := size_scan_le mode (rest ++ ';' :: script lines) (gap ++ pre)
      have seen : isBlank ';' = false := by decide
      rw [← show scan .code (s ++ ';' :: script lines) gap = _ from dropped, same, size_cons, is] at bound
      simp only [weight_append, weight_cons, weight_script, blank, hc, hd, seen, Bool.false_eq_true,
        if_false] at bound
      omega

/-- **A script comes apart into its statements if and only if each of them is plain.** -/
theorem scan_script {lines : List (Option (List Char))}
    (statements : ∀ s ∈ statementsOf lines, IsStatement s) {cur : List Char} (blank : weight cur = 0) :
    scan .code (script lines) cur = statementsOf lines ↔ ∀ s ∈ statementsOf lines, Plain s := by
  induction lines generalizing cur with
  | nil => simp [script, scan, push_of_blank blank]
  | cons line lines ih =>
    have gap : weight (cur ++ ['\n']) = 0 := by
      have newline : isBlank '\n' = true := by decide
      simp [blank, newline]
    have started : ∀ text, scan .code ('\n' :: text) cur = scan .code text (cur ++ ['\n']) := by
      intro text
      simp [scan, read]
    cases line with
    | none => simpa [script, started] using ih statements gap
    | some s =>
      have text : scan .code (script (some s :: lines)) cur =
          scan .code (s ++ ';' :: script lines) (cur ++ ['\n']) := by
        simp [script, started]
      rw [statementsOf_some, List.forall_mem_cons] at statements ⊢
      rw [text]
      exact (scan_statement statements.1 gap lines).trans (and_congr Iff.rfl (ih statements.2 rfl))

end Syncle.Backup
