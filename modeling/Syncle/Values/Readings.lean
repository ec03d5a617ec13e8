import Syncle.Values.Timestamps

/-!
# Reading a timestamp

A text denotes the moment its reading names on the calendar, less its offset, and is UTC where it
has none. What `utcWallClock` writes is read back as the second it was made of, unless the second is
none that a `Date` holds or its year is before 0.
-/

namespace Syncle.Values

open Syncle.Js Syncle.Lib

/-!
## What a value denotes

The meaning that the conversions are held against, in nanoseconds from 1970, and no part of the code.
-/

def Zone.seconds : Zone → ℕ
  | .utc => 0
  | .offset _ _ _ seconds => seconds

def Zone.east : Zone → ℤ
  | .utc => 0
  | .offset west hours minutes seconds =>
    (hours * 3600 + minutes * 60 + seconds) * if west then -1 else 1

/-- The seconds a reading is from 1970 where it is UTC. -/
def Stamp.wall (m : Stamp) : ℤ := makeTime m.year (m.month - 1) m.day m.hour m.minute m.second

/-- Nanoseconds of the second: a fraction has nine digits at the most. -/
def Stamp.ofSecond (m : Stamp) : ℕ := spell (padEnd 9 m.fraction)

/-- The nanoseconds of the moment a reading names. -/
def Stamp.nanos (m : Stamp) : ℤ :=
  (m.wall - (m.zone.map Zone.east).getD 0) * 1000000000 + m.ofSecond

variable {α : Type}

def denoted : Cell α → Option ℤ
  | .text s => (exec (trim s.toList)).map Stamp.nanos
  | .date d => d.time.map (· * 1000000)
  | _ => none

/-!
## Digits

What is padded and written by `padStart` is read by the pattern as the number it was.
-/

theorem twoDigits_padStart {n : ℕ} (small : n < 100) (rest : List Char) :
    twoDigits (padStart 2 (Nat.toDigits 10 n) ++ rest) = some (n, rest) := by
  have len : (padStart 2 (Nat.toDigits 10 n)).length = 2 := by
    rw [length_padStart]
    have short : (Nat.toDigits 10 n).length ≤ 2 :=
      (Nat.length_toDigits_le_iff (by decide) (by decide)).mpr small
    omega
  obtain ⟨a, b, both⟩ := List.length_eq_two.mp len
  have digits : a.isDigit = true ∧ b.isDigit = true := by
    constructor <;> apply @isDigit_padStart 2 n <;> simp [both]
  have value : spell [a, b] = n := by
    rw [← both]
    exact ofDigitChars_padStart 2 n
  simp [both, twoDigits, digits, value]

theorem span_digits {digits : List Char} (all : ∀ c ∈ digits, c.isDigit = true) (rest : List Char) :
    (digits ++ rest).takeWhile Char.isDigit = digits ++ rest.takeWhile Char.isDigit ∧
      (digits ++ rest).dropWhile Char.isDigit = rest.dropWhile Char.isDigit := by
  constructor
  · exact List.takeWhile_append_of_pos all
  · exact List.dropWhile_append_of_pos all

theorem takeFraction_append {digits : List Char} (all : ∀ c ∈ digits, c.isDigit = true)
    (some' : 1 ≤ digits.length) (few : digits.length ≤ 9) {rest : List Char}
    (none' : rest.takeWhile Char.isDigit = []) :
    takeFraction ('.' :: (digits ++ rest)) = some (digits, rest) := by
  have whole : rest.dropWhile Char.isDigit = rest := by
    have parts := @List.takeWhile_append_dropWhile _ Char.isDigit rest
    rw [none', List.nil_append] at parts
    exact parts
  obtain ⟨taken, left⟩ := span_digits all rest
  simp [takeFraction, taken, left, none', whole, some', few]

/-- The reading of a written moment. -/
theorem exec_spelled {y mo d h mi s : ℕ} (month : mo < 100) (day : d < 100) (hour : h < 100)
    (minute : mi < 100) (second : s < 100) {sep : Char} (between : sep ∈ [' ', 'T', 't'])
    {micros : List Char} (all : ∀ c ∈ micros, c.isDigit = true) (six : micros.length = 6)
    {tail : List Char} {zone : Option Zone} (ends : takeZone tail = some zone)
    (noDigit : tail.takeWhile Char.isDigit = [])
    (noSpace : tail.dropWhile (fun c => isSpace c.toNat) = tail) :
    exec (padStart 4 (Nat.toDigits 10 y) ++ '-' :: (padStart 2 (Nat.toDigits 10 mo) ++
        '-' :: (padStart 2 (Nat.toDigits 10 d) ++ sep :: (padStart 2 (Nat.toDigits 10 h) ++
        ':' :: (padStart 2 (Nat.toDigits 10 mi) ++ ':' :: (padStart 2 (Nat.toDigits 10 s) ++
        '.' :: (micros ++ tail))))))) =
      some ⟨y, mo, d, h, mi, s, micros, zone⟩ := by
  have fraction := takeFraction_append all (by omega) (by omega) noDigit
  obtain ⟨taken, left⟩ := span_digits (fun c (mem : c ∈ padStart 4 (Nat.toDigits 10 y)) => isDigit_padStart mem)
    ('-' :: (padStart 2 (Nat.toDigits 10 mo) ++
        '-' :: (padStart 2 (Nat.toDigits 10 d) ++ sep :: (padStart 2 (Nat.toDigits 10 h) ++
        ':' :: (padStart 2 (Nat.toDigits 10 mi) ++ ':' :: (padStart 2 (Nat.toDigits 10 s) ++
        '.' :: (micros ++ tail)))))))
  have long : ¬ (padStart 4 (Nat.toDigits 10 y)).length < 4 := by
    rw [length_padStart]
    omega
  have year : spell (padStart 4 (Nat.toDigits 10 y)) = y := ofDigitChars_padStart 4 y
  have dash : Char.isDigit '-' = false := rfl
  rw [List.takeWhile_cons_of_neg (by simp [dash]), List.append_nil] at taken
  rw [List.dropWhile_cons_of_neg (by simp [dash])] at left
  simp only [exec, taken, left, if_neg long, takeOne, twoDigits_padStart, month, day, hour, minute,
    second, between, fraction, noSpace, ends, year, decide_true, if_true, Option.bind_eq_bind,
    Option.bind_some, pure]

/-!
## A written moment, read back

`utcWallClock` goes from a `Date` to the calendar, and `exec` from the calendar to a reading: the
calendar's arithmetic is in the library, the rest is the spelling.
-/

theorem numberText_nonneg {n : ℤ} (h : 0 ≤ n) : numberText (some n) = Nat.toDigits 10 n.toNat := by
  cases n with
  | ofNat n => rfl
  | negSucc n => exact absurd h (by omega)

/-- The fields of a time are those of its second. -/
theorem makeTime_civilOf (t : ℤ) :
    makeTime (civilOf (t / 86400000)).year ((civilOf (t / 86400000)).month - 1)
      (civilOf (t / 86400000)).day (t / 3600000 % 24) (t / 60000 % 60) (t / 1000 % 60) =
        t / 1000 := by
  have month := civilOf_month (t / 86400000)
  have inYear : ((civilOf (t / 86400000)).month - 1) / 12 = 0 := by omega
  have same : ((civilOf (t / 86400000)).month - 1) % 12 + 1 = (civilOf (t / 86400000)).month := by
    omega
  unfold makeTime makeDay
  rw [inYear, same, Int.add_zero, dayNumber_civilOf]
  omega

section Written

variable {i : Instant} {sep : Char} {tail : List Char}

/-- What may follow a written moment. -/
inductive Tail : List Char → Option Zone → Prop
  | none : Tail [] none
  | utc : Tail ['Z'] (some .utc)

theorem exec_utcWallClock {t : ℤ} {zone : Option Zone} (valid : timeClip i.ms = some t)
    (year : 0 ≤ (civilOf (t / 86400000)).year) (between : sep ∈ [' ', 'T', 't'])
    (all : ∀ c ∈ i.micros, c.isDigit = true) (six : i.micros.length = 6) (ends : Tail tail zone) :
    ∃ m, exec (utcWallClock i sep ++ tail) = some m ∧ m.wall = t / 1000 ∧ m.fraction = i.micros ∧
      m.zone = zone := by
  have month := civilOf_month (t / 86400000)
  have day := civilOf_day (t / 86400000)
  have time := makeTime_civilOf t
  refine ⟨⟨(civilOf (t / 86400000)).year.toNat, (civilOf (t / 86400000)).month.toNat,
    (civilOf (t / 86400000)).day.toNat, (t / 3600000 % 24).toNat, (t / 60000 % 60).toNat,
    (t / 1000 % 60).toNat, i.micros, zone⟩, ?_, ?_, rfl, rfl⟩
  · have spelled := @exec_spelled (civilOf (t / 86400000)).year.toNat
      (civilOf (t / 86400000)).month.toNat (civilOf (t / 86400000)).day.toNat
      (t / 3600000 % 24).toNat (t / 60000 % 60).toNat (t / 1000 % 60).toNat (by omega) (by omega)
      (by omega) (by omega) (by omega) sep between i.micros all six tail zone
    have text : utcWallClock i sep ++ tail = _ := rfl
    unfold utcWallClock newDate getUTCFullYear getUTCMonth getUTCDate getUTCHours getUTCMinutes
      getUTCSeconds two
    simp only [valid, Option.map_some, sub_add_cancel]
    rw [numberText_nonneg year, numberText_nonneg (by omega), numberText_nonneg (by omega),
      numberText_nonneg (by omega), numberText_nonneg (by omega), numberText_nonneg (by omega)]
    simp only [List.append_assoc, List.cons_append]
    cases ends with
    | none => exact spelled rfl rfl rfl
    | utc => exact spelled rfl rfl rfl
  · unfold Stamp.wall
    rw [Int.toNat_of_nonneg year, Int.toNat_of_nonneg (by omega), Int.toNat_of_nonneg (by omega),
      Int.toNat_of_nonneg (by omega), Int.toNat_of_nonneg (by omega), Int.toNat_of_nonneg (by omega)]
    exact time

/-- A year that does not begin with four digits is none. -/
theorem exec_padStart {c : Char} (noDigit : c.isDigit = false) (number rest : List Char) :
    exec (padStart 4 (c :: number) ++ rest) = none := by
  have all : ∀ d ∈ List.replicate (4 - (c :: number).length) '0', d.isDigit = true := by
    intro d mem
    rw [List.eq_of_mem_replicate mem]
    rfl
  have short : ((padStart 4 (c :: number) ++ rest).takeWhile Char.isDigit).length < 4 := by
    rw [padStart, List.append_assoc, (span_digits all _).1, List.cons_append,
      List.takeWhile_cons_of_neg (by simp [noDigit]), List.append_nil, List.length_replicate,
      List.length_cons]
    omega
  rw [exec, if_pos short]

theorem exec_invalid (invalid : timeClip i.ms = none) : exec (utcWallClock i sep ++ tail) = none := by
  unfold utcWallClock newDate getUTCFullYear
  simp only [invalid, Option.map_none, numberText, List.append_assoc]
  exact exec_padStart rfl _ _

theorem exec_beforeYearZero {t : ℤ} (valid : timeClip i.ms = some t)
    (year : (civilOf (t / 86400000)).year < 0) : exec (utcWallClock i sep ++ tail) = none := by
  unfold utcWallClock newDate getUTCFullYear
  simp only [valid, Option.map_some, List.append_assoc]
  cases is : (civilOf (t / 86400000)).year with
  | ofNat n =>
    rw [is] at year
    exact absurd year (Int.not_lt.mpr (Int.natCast_nonneg n))
  | negSucc n => exact exec_padStart rfl _ _

/-!
## Space at the ends

A value is trimmed before it is read; what the program writes has none.
-/

theorem trim_eq {text : List Char} (first : ∀ c ∈ text.head?, isSpace c.toNat = false)
    (last : ∀ c ∈ text.getLast?, isSpace c.toNat = false) : trim text = text := by
  have keeps : ∀ text : List Char, (∀ c ∈ text.head?, isSpace c.toNat = false) →
      text.dropWhile (fun c => isSpace c.toNat) = text := by
    intro text first
    cases text with
    | nil => rfl
    | cons c rest => exact List.dropWhile_cons_of_neg (by simpa using first c rfl)
  rw [trim, keeps text first, keeps text.reverse, List.reverse_reverse]
  rw [List.head?_reverse]
  exact last

theorem noSpace_of_isDigit {c : Char} (h : c.isDigit = true) : isSpace c.toNat = false := by
  have bounds := digit_bounds h
  simp only [isSpace, List.mem_cons, List.not_mem_nil]
  simp
  omega

theorem noSpace_numberText {n : Option ℤ} {c : Char} (h : c ∈ numberText n) :
    isSpace c.toNat = false := by
  have digit : ∀ {k : ℕ}, c ∈ Nat.toDigits 10 k → isSpace c.toNat = false := fun mem =>
    noSpace_of_isDigit (Nat.isDigit_of_mem_toDigits (by decide) (by decide) mem)
  cases n with
  | none =>
    simp only [numberText, List.mem_cons, List.not_mem_nil, or_false] at h
    obtain rfl | rfl | rfl := h <;> decide
  | some n =>
    cases n with
    | ofNat n => exact digit h
    | negSucc n =>
      obtain _ | ⟨_, mem⟩ := h
      · decide
      · exact digit mem

theorem trim_utcWallClock {zone : Option Zone} (all : ∀ c ∈ i.micros, c.isDigit = true)
    (six : i.micros.length = 6) (ends : Tail tail zone) :
    trim (utcWallClock i sep ++ tail) = utcWallClock i sep ++ tail := by
  apply trim_eq
  · intro c first
    have some' : padStart 4 (numberText (getUTCFullYear (newDate i.ms))) ≠ [] := by
      apply List.ne_nil_of_length_pos
      rw [length_padStart]
      omega
    simp only [utcWallClock, List.append_assoc] at first
    rw [List.head?_append_of_ne_nil _ some'] at first
    have mem := List.mem_of_mem_head? first
    obtain mem | mem := List.mem_append.mp mem
    · rw [List.eq_of_mem_replicate mem]
      rfl
    · exact noSpace_numberText mem
  · intro c last
    have some' : i.micros ≠ [] := List.ne_nil_of_length_pos (by omega)
    cases ends with
    | none =>
      simp only [utcWallClock, List.append_nil] at last
      rw [List.getLast?_append_of_ne_nil _ (List.cons_ne_nil _ _), List.getLast?_cons_of_ne_nil some'] at last
      exact noSpace_of_isDigit (all c (List.mem_of_mem_getLast? last))
    | utc =>
      rw [List.getLast?_append_of_ne_nil _ (List.cons_ne_nil _ _)] at last
      obtain rfl : 'Z' = c := by simpa using last
      decide

end Written

/-!
## What the pattern finds

The bounds on the parts of a reading that the pattern gives, without which an offset could be of days.
-/

theorem twoDigits_lt {text rest : List Char} {n : ℕ} (h : twoDigits text = some (n, rest)) :
    n < 100 := by
  unfold twoDigits at h
  split at h
  · rename_i a b _
    split at h
    · rename_i digits
      obtain ⟨rfl, -⟩ := Prod.mk.inj (Option.some.inj h)
      apply ofDigitChars_lt
      intro c mem
      obtain rfl | rfl := List.mem_pair.mp mem
      · exact digits.1
      · exact digits.2
    · cases h
  · cases h

theorem offsetSeconds_lt (text : List Char) : (offsetSeconds text).1 < 100 := by
  unfold offsetSeconds
  cases is : (takeOne (· = ':') text).bind twoDigits with
  | none => exact Nat.succ_pos 99
  | some read =>
    obtain ⟨rest, -, digits⟩ := Option.bind_eq_some_iff.mp is
    exact twoDigits_lt digits

theorem offsetMinutes_lt (text : List Char) : (offsetMinutes text).1 < 100 := by
  unfold offsetMinutes
  cases is : twoDigits text with
  | some read => exact twoDigits_lt is
  | none =>
    cases is' : (takeOne (· = ':') text).bind twoDigits with
    | none => exact Nat.succ_pos 99
    | some read =>
      obtain ⟨rest, -, digits⟩ := Option.bind_eq_some_iff.mp is'
      exact twoDigits_lt digits

/-- An offset of two digits of hours, of minutes and of seconds. -/
structure Zone.Small (zone : Zone) : Prop where
  west : -6100 ≤ zone.offsetMin
  east : zone.offsetMin ≤ 6100
  seconds : zone.seconds < 100

theorem takeZone_small {text : List Char} {zone : Zone} (h : takeZone text = some (some zone)) :
    zone.Small := by
  unfold takeZone at h
  split at h
  · cases h
  · split at h
    · split at h
      · obtain rfl := Option.some.inj (Option.some.inj h)
        exact ⟨by decide, by decide, by decide⟩
      · cases h
    · split at h
      · obtain ⟨⟨hours, rest⟩, digits, h⟩ := Option.bind_eq_some_iff.mp h
        have hours' := twoDigits_lt digits
        have minutes' := offsetMinutes_lt rest
        dsimp only at h
        split at h
        · obtain rfl := Option.some.inj (Option.some.inj h)
          refine ⟨?_, ?_, offsetSeconds_lt _⟩ <;> simp only [Zone.offsetMin] <;> split <;> omega
        · cases h
      · cases h

theorem takeFraction_digits {text rest digits : List Char} (h : takeFraction text = some (digits, rest)) :
    (∀ c ∈ digits, c.isDigit = true) ∧ digits.length ≤ 9 := by
  unfold takeFraction at h
  split at h
  · dsimp only at h
    split at h
    · rename_i len
      obtain ⟨rfl, -⟩ := Prod.mk.inj (Option.some.inj h)
      exact ⟨fun c mem => List.all_eq_true.mp List.all_takeWhile c mem, len.2⟩
    · cases h
  · obtain ⟨rfl, -⟩ := Prod.mk.inj (Option.some.inj h)
    exact ⟨by simp, by simp⟩

/-- What is found: fields of two digits, and a fraction of nine at the most. -/
structure Stamp.Found (m : Stamp) : Prop where
  month : m.month < 100
  day : m.day < 100
  hour : m.hour < 100
  minute : m.minute < 100
  second : m.second < 100
  digits : ∀ c ∈ m.fraction, c.isDigit = true
  short : m.fraction.length ≤ 9
  small : ∀ zone, m.zone = some zone → zone.Small

theorem exec_found {text : List Char} {m : Stamp} (h : exec text = some m) : m.Found := by
  unfold exec at h
  dsimp only at h
  split at h
  · cases h
  · simp only [Option.bind_eq_bind, Option.bind_eq_some_iff, Option.pure_def] at h
    obtain ⟨_, -, month, month', _, -, day, day', _, -, hour, hour', _, -, minute, minute', _, -,
      second, second', fraction, taken, zone, ends, is⟩ := h
    obtain rfl := Option.some.inj is
    obtain ⟨digits, short⟩ := takeFraction_digits taken
    refine ⟨twoDigits_lt month', twoDigits_lt day', twoDigits_lt hour', twoDigits_lt minute',
      twoDigits_lt second', digits, short, ?_⟩
    intro found is
    have here : zone = some found := is
    rw [here] at ends
    exact takeZone_small ends

/-!
## A reading without a zone, with `Z` after it

A `Z` behind a text without a zone changes nothing but the zone: so does each step of the reading,
from the left.
-/

theorem takeOne_concat {p : Char → Bool} (notZ : p 'Z' = false) (text : List Char) :
    takeOne p (text ++ ['Z']) = (takeOne p text).map (· ++ ['Z']) := by
  cases text with
  | nil => simp [takeOne, notZ]
  | cons c text =>
    cases is : p c with
    | true => simp [takeOne, is]
    | false => simp [takeOne, is]

theorem twoDigits_concat (text : List Char) :
    twoDigits (text ++ ['Z']) = (twoDigits text).map fun read => (read.1, read.2 ++ ['Z']) := by
  match text with
  | [] => rfl
  | [a] => simp [twoDigits]
  | a :: b :: text =>
    by_cases digits : a.isDigit ∧ b.isDigit
    · simp [twoDigits, digits]
    · simp only [twoDigits, List.cons_append, if_neg digits, Option.map_none]

theorem minutes_concat (text : List Char) :
    (takeOne (· = ':') (text ++ ['Z'])).bind twoDigits =
      ((takeOne (· = ':') text).bind twoDigits).map fun read => (read.1, read.2 ++ ['Z']) := by
  rw [takeOne_concat (by decide)]
  cases takeOne (· = ':') text with
  | none => rfl
  | some rest => exact twoDigits_concat rest

theorem offsetMinutes_concat (text : List Char) : offsetMinutes (text ++ ['Z']) =
    ((offsetMinutes text).1, (offsetMinutes text).2 ++ ['Z']) := by
  unfold offsetMinutes
  rw [twoDigits_concat, minutes_concat]
  cases twoDigits text with
  | some read => rfl
  | none =>
    cases (takeOne (· = ':') text).bind twoDigits with
    | some read => rfl
    | none => rfl

theorem offsetSeconds_concat (text : List Char) : offsetSeconds (text ++ ['Z']) =
    ((offsetSeconds text).1, (offsetSeconds text).2 ++ ['Z']) := by
  unfold offsetSeconds
  rw [minutes_concat]
  cases (takeOne (· = ':') text).bind twoDigits with
  | some read => rfl
  | none => rfl

theorem takeWhile_concat (text : List Char) :
    (text ++ ['Z']).takeWhile Char.isDigit = text.takeWhile Char.isDigit := by
  induction text with
  | nil => rfl
  | cons c text ih =>
    cases is : c.isDigit with
    | true => simpa [is] using ih
    | false => simp [is]

theorem takeFraction_noDot {c : Char} (noDot : c ≠ '.') (text : List Char) :
    takeFraction (c :: text) = some ([], c :: text) := by
  unfold takeFraction
  split
  · rename_i is
    exact absurd (List.cons.inj is).1 noDot
  · rfl

theorem takeFraction_concat (text : List Char) : takeFraction (text ++ ['Z']) =
    (takeFraction text).map fun read => (read.1, read.2 ++ ['Z']) := by
  cases text with
  | nil => rfl
  | cons c text =>
    by_cases dot : c = '.'
    · rw [dot, List.cons_append, takeFraction, takeFraction, takeWhile_concat,
        dropWhile_concat (by decide)]
      split <;> rfl
    · rw [List.cons_append, takeFraction_noDot dot, takeFraction_noDot dot]
      rfl

theorem takeZone_concat (text : List Char) :
    takeZone (text ++ ['Z']) = if text = [] then some (some .utc) else none := by
  cases text with
  | nil => rfl
  | cons c text =>
    rw [if_neg (List.cons_ne_nil c text), List.cons_append, takeZone]
    split
    · simp
    · split
      · rw [twoDigits_concat]
        cases twoDigits text with
        | none => rfl
        | some read => simp [offsetMinutes_concat, offsetSeconds_concat]
      · rfl

theorem takeZone_ne_none {c : Char} (text : List Char) : takeZone (c :: text) ≠ some none := by
  intro h
  rw [takeZone] at h
  split at h
  · split at h <;> cases h
  · split at h
    · obtain ⟨hours, -, h⟩ := Option.bind_eq_some_iff.mp h
      dsimp only at h
      split at h <;> cases h
    · cases h

theorem takeZone_concat' (text : List Char) : takeZone (text ++ ['Z']) =
    (takeZone text).bind fun zone => if zone = none then some (some .utc) else none := by
  rw [takeZone_concat]
  cases text with
  | nil => rfl
  | cons c text =>
    rw [if_neg (List.cons_ne_nil c text)]
    cases is : takeZone (c :: text) with
    | none => rfl
    | some zone =>
      have noted : zone ≠ none := by
        rintro rfl
        exact takeZone_ne_none text is
      rw [Option.bind_some, if_neg noted]

section Then

variable {β : Type} {f g : List Char → Option β} {f' g' : ℕ × List Char → Option β}

theorem takeOne_then {p : Char → Bool} (notZ : p 'Z' = false) {text : List Char}
    (same : ∀ rest, f (rest ++ ['Z']) = g rest) :
    (takeOne p (text ++ ['Z'])).bind f = (takeOne p text).bind g := by
  rw [takeOne_concat notZ]
  cases takeOne p text with
  | none => rfl
  | some rest => exact same rest

theorem twoDigits_then {text : List Char} (same : ∀ n rest, f' (n, rest ++ ['Z']) = g' (n, rest)) :
    (twoDigits (text ++ ['Z'])).bind f' = (twoDigits text).bind g' := by
  rw [twoDigits_concat]
  cases twoDigits text with
  | none => rfl
  | some read => exact same read.1 read.2

end Then

/-- A `Z` after a text is the zone of one that has none, and nothing after one that has. -/
theorem exec_concat (text : List Char) : exec (text ++ ['Z']) =
    (exec text).bind fun m => if m.zone = none then some { m with zone := some .utc } else none := by
  unfold exec
  dsimp only
  rw [takeWhile_concat, dropWhile_concat (by decide)]
  split
  · rfl
  · simp only [Option.bind_eq_bind, Option.bind_assoc, Option.pure_def, Option.bind_some]
    refine takeOne_then (by decide) fun rest => twoDigits_then fun month rest =>
      takeOne_then (by decide) fun rest => twoDigits_then fun day rest =>
      takeOne_then (by decide) fun rest => twoDigits_then fun hour rest =>
      takeOne_then (by decide) fun rest => twoDigits_then fun minute rest =>
      takeOne_then (by decide) fun rest => twoDigits_then fun second rest => ?_
    rw [takeFraction_concat]
    cases takeFraction rest with
    | none => rfl
    | some read =>
      rw [Option.map_some, Option.bind_some, Option.bind_some, dropWhile_concat (by decide),
        takeZone_concat']
      cases takeZone (read.2.dropWhile fun c => isSpace c.toNat) with
      | none => rfl
      | some zone =>
        cases zone with
        | none => rfl
        | some zone => rfl

end Syncle.Values
