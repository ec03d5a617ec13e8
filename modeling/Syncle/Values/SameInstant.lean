import Syncle.Values.Readings

/-!
# A converted value denotes the same instant

The value made of a text or a `Date` is to denote the moment it denotes, to the target's precision.
`parseInstant` leaves the seconds of an offset out, and `Date.UTC` moves the years up to 99 into the
twentieth century; a moment past the last a `Date` holds, and one before the year 0, have no reading.
-/

namespace Syncle.Values

open Syncle.Js Syncle.Lib

variable {α : Type}

/-- The nanoseconds a target tells apart: a MongoDB date has milliseconds, a text microseconds. -/
def DatabaseEngine.tick : DatabaseEngine → ℤ
  | .mongodb => 1000000
  | _ => 1000

/-- What a row's value becomes: one that has no converter is left as it is. -/
def converted (kind : PortableKind) (source target : DatabaseEngine) (opts : ConvertOptions)
    (v : Cell α) : Cell α := ((valueConverterFor kind source target opts).map (· v)).getD v

/-- A value is left as it is, or denotes the same instant to the target's precision. -/
def SameInstant (target : DatabaseEngine) (v w : Cell α) : Prop :=
  w = v ∨ ∃ a b, denoted v = some a ∧ denoted w = some b ∧ b / target.tick = a / target.tick

/-- …but for a MySQL zero date, which no other engine takes. -/
def Keeps (source target : DatabaseEngine) (v w : Cell α) : Prop :=
  if source = .mysql ∧ target ≠ .mysql ∧ isZeroDate v then w = .null else SameInstant target v w

/-!
## When

The condition of the converter, on the reading of the text: a year and a moment that `Date.UTC` and
the target's engine have, and an offset of whole minutes.
-/

/-- The columns whose moments a target takes in a form of its own. -/
def Converts (kind : PortableKind) (target : DatabaseEngine) (opts : ConvertOptions) : Prop :=
  match kind, target with
  | .timestamptz, .redis => opts.isoInstants
  | .timestamptz, .postgres => False
  | .timestamptz, _ => True
  | .timestamp, _ => target = .mongodb
  | .date, _ => False

/-- The last millisecond a moment may be in: a text's is not looked at. -/
def DatabaseEngine.latest : DatabaseEngine → ℤ
  | .mongodb => lastTime
  | _ => lastTime + 999

/-- A reading of a year from 100 on, at an offset of whole minutes, of a moment that a `Date` holds. -/
structure Stamp.Sound (m : Stamp) (target : DatabaseEngine) : Prop where
  year : 100 ≤ m.year
  minutes : ∀ zone, m.zone = some zone → zone.seconds = 0
  holds : m.nanos / 1000000 ≤ target.latest

/-- A reading without a zone is a moment where the column has none, and one with a zone where it has.
A reading that `Date.UTC` has no time for is left as it is. -/
def GoesWell (kind : PortableKind) (target : DatabaseEngine) : Cell α → Prop
  | .text s => ∀ m, exec (trim s.toList) = some m → (m.zone = none ↔ kind = .timestamp) →
      m.wall * 1000 ≤ lastTime → m.Sound target
  | .date d => target ≠ .mongodb → ∀ year, getUTCFullYear d = some year → 0 ≤ year
  | _ => True

/-!
## Fractions

A fraction has any number of digits, of which a target keeps three or six.
-/

theorem take_padEnd {k w v : ℕ} (h : k ≤ w) (h' : w ≤ v) (digits : List Char) :
    (padEnd w digits).take k = (padEnd v digits).take k := by
  simp only [padEnd, List.take_append, List.take_replicate]
  congr 2
  omega

theorem spell_take {digits : List Char} (all : ∀ c ∈ digits, c.isDigit = true) (k : ℕ) :
    spell (digits.take k) = spell digits / 10 ^ (digits.length - k) := by
  have parts : spell digits =
      spell (digits.take k) * 10 ^ (digits.length - k) + spell (digits.drop k) := by
    have both : digits.take k ++ digits.drop k = digits := List.take_append_drop k digits
    rw [← List.length_drop, Nat.mul_comm, spell, spell, spell,
      ← Nat.ofDigitChars_eq_ofDigitChars_zero, ← Nat.ofDigitChars_append, both]
  have rest : spell (digits.drop k) < 10 ^ (digits.length - k) := by
    have below := @ofDigitChars_lt (digits.drop k) fun c mem => all c (List.mem_of_mem_drop mem)
    rwa [List.length_drop] at below
  rw [parts, Nat.mul_comm, Nat.mul_add_div (Nat.pow_pos (by decide)), Nat.div_eq_of_lt rest,
    Nat.add_zero]

theorem isDigit_padEnd {w : ℕ} {digits : List Char} (all : ∀ c ∈ digits, c.isDigit = true) :
    ∀ c ∈ padEnd w digits, c.isDigit = true := by
  intro c mem
  obtain mem | mem := List.mem_append.mp mem
  · exact all c mem
  · rw [List.eq_of_mem_replicate mem]
    rfl

theorem length_padEnd {w : ℕ} {digits : List Char} (short : digits.length ≤ w) :
    (padEnd w digits).length = w := by
  rw [padEnd, List.length_append, List.length_replicate]
  omega

theorem spell_padEnd {w : ℕ} (digits : List Char) :
    spell (padEnd w digits) = spell digits * 10 ^ (w - digits.length) := by
  rw [spell, padEnd, Nat.ofDigitChars_append, Nat.ofDigitChars_replicate_zero, Nat.mul_comm, spell]

/-- What an instant is written from: a whole second and six digits of it. -/
structure Instant.Whole (i : Instant) : Prop where
  second : i.ms % 1000 = 0
  digits : ∀ c ∈ i.micros, c.isDigit = true
  six : i.micros.length = 6

def Instant.nanos (i : Instant) : ℤ := i.ms * 1000000 + spell i.micros * 1000

section Written

variable {i : Instant} (whole : i.Whole)

include whole

theorem Instant.Whole.millis : spell (i.micros.take 3) = spell i.micros / 1000 := by
  rw [spell_take whole.digits, whole.six]
  rfl

theorem Instant.Whole.below : spell i.micros < 1000000 := by
  have below := ofDigitChars_lt whole.digits
  rwa [whole.six] at below

theorem denoted_date : (denoted (.date i.toDate : Cell α)) =
    (timeClip (i.ms + (spell i.micros / 1000 : ℕ))).map (· * 1000000) := by
  rw [denoted, Instant.toDate, newDate, whole.millis]

variable {sep : Char} {tail : List Char} {zone : Option Zone} (between : sep ∈ [' ', 'T', 't'])
  (ends : Tail tail zone)

include between ends

theorem denoted_text {t : ℤ} (valid : timeClip i.ms = some t)
    (year : 0 ≤ (civilOf (t / 86400000)).year) :
    denoted (.text (String.ofList (utcWallClock i sep ++ tail)) : Cell α) = some i.nanos := by
  obtain ⟨m, found, wall, fraction, zoned⟩ :=
    exec_utcWallClock valid year between whole.digits whole.six ends
  have same : i.ms = t := by
    unfold timeClip at valid
    split at valid
    · exact Option.some.inj valid
    · cases valid
  have utc : (zone.map Zone.east).getD 0 = 0 := by
    cases ends <;> rfl
  have second := whole.second
  have fraction' : m.ofSecond = spell i.micros * 1000 := by
    rw [Stamp.ofSecond, fraction, spell_padEnd, whole.six]
    rfl
  rw [denoted, String.toList_ofList, trim_utcWallClock whole.digits whole.six ends, found,
    Option.map_some, Stamp.nanos, wall, zoned, utc, fraction', Instant.nanos, ← same]
  apply congrArg some
  rw [Nat.cast_mul]
  omega

omit between in
theorem denoted_unreadable (none' : ∀ t, timeClip i.ms = some t → (civilOf (t / 86400000)).year < 0) :
    denoted (.text (String.ofList (utcWallClock i sep ++ tail)) : Cell α) = none := by
  have unread : exec (utcWallClock i sep ++ tail) = none := by
    cases valid : timeClip i.ms with
    | none => exact exec_invalid valid
    | some t => exact exec_beforeYearZero valid (none' t valid)
  rw [denoted, String.toList_ofList, trim_utcWallClock whole.digits whole.six ends, unread,
    Option.map_none]

end Written

/-!
## What is made of a reading

The second that `Date.UTC` makes of a reading's fields is the reading's own, but for the years it
moves and the moments that no `Date` holds.
-/

section Calendar

variable {year month day : ℤ}

/-- A year of the first century and the one `Date.UTC` takes it for are far apart. -/
theorem makeDay_century :
    makeDay year month day + 400 ≤ makeDay (1900 + year) month day := by
  unfold makeDay dayNumber monthStart yearStart marchStart
  dsimp only
  split <;> omega

theorem makeDay_first (old : 100 ≤ year) (month' : -1 ≤ month) (day' : 0 ≤ day) :
    -719000 ≤ makeDay year month day := by
  unfold makeDay dayNumber monthStart yearStart marchStart
  dsimp only
  split <;> omega

theorem makeDay_twentieth (early : year ≤ 1999) (month' : month < 100) (day' : day < 100) :
    makeDay year month day ≤ 100000 := by
  unfold makeDay dayNumber monthStart yearStart marchStart
  dsimp only
  split <;> omega

theorem civilOf_year {n : ℤ} (h : -719468 ≤ n) : 0 ≤ (civilOf n).year := by
  have year := yearOfEra_bounds (Int.emod_nonneg (n + 719468) (by decide))
    (Int.emod_lt_of_pos (n + 719468) (by decide))
  unfold civilOf
  dsimp only
  split <;> omega

end Calendar

theorem timeClip_some {time : ℤ} (low : -lastTime ≤ time) (high : time ≤ lastTime) :
    timeClip time = some time := if_pos ⟨low, high⟩

theorem timeClip_none {time : ℤ} (high : lastTime < time) : timeClip time = none := by
  apply if_neg
  rintro ⟨-, h⟩
  omega

theorem Zone.east_eq (zone : Zone) : zone.east = zone.offsetMin * 60 + zone.seconds ∨
    zone.east = zone.offsetMin * 60 - zone.seconds := by
  cases zone with
  | utc => exact Or.inl rfl
  | offset west hours minutes seconds =>
    cases west with
    | false =>
      left
      simp only [east, offsetMin, Zone.seconds, Bool.false_eq_true, if_false]
      omega
    | true =>
      right
      simp only [east, offsetMin, Zone.seconds, if_true]
      omega

/-- The second an instant has, as far as it is that of the reading: `Date.UTC` puts it off by
`shift`, and the offset's seconds are left out. -/
structure Stamp.Parsed (m : Stamp) (zone : Zone) (shift : ℤ) (i : Instant) : Prop where
  is : m.parsed = some i
  whole : i.Whole
  micros : spell i.micros = m.ofSecond / 1000
  ms : i.ms = (m.wall + shift - zone.offsetMin * 60) * 1000
  low : -719000 * 86400 ≤ m.wall + shift
  century : shift = 0 ∧ 100 ≤ m.year ∨ 400 * 86400 ≤ shift ∧ m.year < 100

section Parsed

variable {m : Stamp} (found : m.Found) {zone : Zone} (zoned : m.zone = some zone)

include found

theorem micros_whole : (∀ c ∈ (padEnd 6 m.fraction).take 6, c.isDigit = true) ∧
    ((padEnd 6 m.fraction).take 6).length = 6 ∧
    spell ((padEnd 6 m.fraction).take 6) = m.ofSecond / 1000 := by
  have same : (padEnd 6 m.fraction).take 6 = (padEnd 9 m.fraction).take 6 :=
    take_padEnd (Nat.le_refl 6) (by decide) m.fraction
  have nine : (padEnd 9 m.fraction).length = 9 := length_padEnd found.short
  rw [same]
  refine ⟨?_, ?_, ?_⟩
  · intro c mem
    exact isDigit_padEnd found.digits c (List.mem_of_mem_take mem)
  · rw [List.length_take, nine]
    rfl
  · rw [spell_take (isDigit_padEnd found.digits), nine, Stamp.ofSecond]
    rfl

theorem ofSecond_lt : m.ofSecond < 1000000000 := by
  have below := ofDigitChars_lt (isDigit_padEnd (w := 9) found.digits)
  rwa [length_padEnd found.short] at below

include zoned

theorem parsed_of_dateUTC {year : ℤ} (full : (if 0 ≤ (m.year : ℤ) ∧ (m.year : ℤ) ≤ 99
      then 1900 + (m.year : ℤ) else m.year) = year)
    {time : ℤ} (valid : timeClip (makeTime year (m.month - 1) m.day m.hour m.minute m.second * 1000) =
      some time) :
    ∃ i, m.parsed = some i ∧ i.Whole ∧ spell i.micros = m.ofSecond / 1000 ∧
      i.ms = (makeTime year (m.month - 1) m.day m.hour m.minute m.second - zone.offsetMin * 60) * 1000 := by
  have same : makeTime year (m.month - 1) m.day m.hour m.minute m.second * 1000 = time := by
    unfold timeClip at valid
    split at valid
    · exact Option.some.inj valid
    · cases valid
  obtain ⟨digits, six, micros⟩ := micros_whole found
  refine ⟨⟨time - zone.offsetMin * 60000, (padEnd 6 m.fraction).take 6⟩, ?_, ?_, micros, ?_⟩
  · unfold Stamp.parsed dateUTC
    rw [zoned]
    dsimp only [Option.bind_eq_bind, Option.bind_some]
    rw [full, valid]
    rfl
  · refine ⟨?_, digits, six⟩
    dsimp only
    omega
  · dsimp only
    omega

/-- A reading is parsed unless it is past the last of `Date.UTC`. -/
theorem parsed_cases : (lastTime < m.wall * 1000 ∧ m.parsed = none) ∨
    (m.wall * 1000 ≤ lastTime ∧ ∃ shift i, m.Parsed zone shift i) := by
  have day := found.day
  have month := found.month
  have hour := found.hour
  have minute := found.minute
  have second := found.second
  by_cases old : 100 ≤ m.year
  · have full : (if 0 ≤ (m.year : ℤ) ∧ (m.year : ℤ) ≤ 99 then 1900 + (m.year : ℤ) else m.year) =
        m.year := if_neg (by omega)
    have first := @makeDay_first m.year (m.month - 1) m.day (by omega) (by omega) (by omega)
    have wall : -719000 * 86400 ≤ m.wall := by
      unfold Stamp.wall makeTime
      omega
    by_cases late : lastTime < m.wall * 1000
    · left
      refine ⟨late, ?_⟩
      unfold Stamp.parsed dateUTC
      rw [zoned]
      dsimp only [Option.bind_eq_bind, Option.bind_some]
      rw [full]
      have clipped : timeClip (makeTime m.year (m.month - 1) m.day m.hour m.minute m.second * 1000) =
          none := timeClip_none late
      rw [clipped]
      rfl
    · right
      have valid : timeClip (m.wall * 1000) = some (m.wall * 1000) :=
        timeClip_some (by unfold lastTime; omega) (by omega)
      obtain ⟨i, is, whole, micros, ms⟩ := parsed_of_dateUTC found zoned full valid
      refine ⟨by omega, 0, i, is, whole, micros, ?_, ?_, Or.inl ⟨rfl, old⟩⟩
      · rw [ms, Stamp.wall, add_zero]
      · rw [add_zero]
        exact wall
  · right
    have full : (if 0 ≤ (m.year : ℤ) ∧ (m.year : ℤ) ≤ 99 then 1900 + (m.year : ℤ) else m.year) =
        1900 + m.year := if_pos (by omega)
    have far := @makeDay_century m.year (m.month - 1) m.day
    have first := @makeDay_first (1900 + m.year) (m.month - 1) m.day (by omega) (by omega) (by omega)
    have last := @makeDay_twentieth (1900 + m.year) (m.month - 1) m.day (by omega) (by omega)
      (by omega)
    have valid := @timeClip_some
      (makeTime (1900 + m.year) (m.month - 1) m.day m.hour m.minute m.second * 1000)
      (by unfold makeTime lastTime; omega) (by unfold makeTime lastTime; omega)
    obtain ⟨i, is, whole, micros, ms⟩ := parsed_of_dateUTC found zoned full valid
    refine ⟨?_, makeTime (1900 + m.year) (m.month - 1) m.day m.hour m.minute m.second - m.wall, i, is,
      whole, micros, ?_, ?_, Or.inr ⟨?_, by omega⟩⟩
    · unfold Stamp.wall makeTime lastTime
      omega
    · rw [ms, add_sub_cancel]
    · rw [add_sub_cancel]
      unfold makeTime
      omega
    · unfold Stamp.wall makeTime
      omega

end Parsed

/-- What a column of a target holds for an instant. -/
def written (target : DatabaseEngine) (i : Instant) : Cell α :=
  match target with
  | .mongodb => .date i.toDate
  | .mysql => .text (String.ofList (utcWallClock i ' '))
  | _ => .text (String.ofList (utcWallClock i 'T' ++ ['Z']))

/-- Seconds that are off show at every tick. -/
theorem DatabaseEngine.same_tick (target : DatabaseEngine) {second off : ℤ} {ofSecond : ℕ}
    (below : ofSecond < 1000000000) :
    ((second + off) * 1000000000 + (ofSecond / 1000 : ℕ) * 1000) / target.tick =
      (second * 1000000000 + ofSecond) / target.tick ↔ off = 0 := by
  have tick : target.tick = 1000 ∨ target.tick = 1000000 := by
    cases target <;> simp [tick]
  have rest : (ofSecond : ℤ) < 1000000000 := by exact_mod_cast below
  rcases tick with tick | tick
  · rw [tick]
    omega
  · rw [tick]
    omega

section Same

variable {m : Stamp} {zone : Zone} {shift : ℤ} {i : Instant} (parsed : m.Parsed zone shift i)
  (found : m.Found) (zoned : m.zone = some zone)

include parsed found zoned

/-- The instant of a reading is that of its moment, where neither the century nor seconds are lost. -/
theorem nanos_eq_iff (target : DatabaseEngine) : i.nanos / target.tick = m.nanos / target.tick ↔
    100 ≤ m.year ∧ zone.seconds = 0 := by
  have small := (found.small zone zoned).seconds
  have century := parsed.century
  have offset := zone.east_eq
  -- the seconds the instant is off
  let off := shift + (zone.east - zone.offsetMin * 60)
  have moment : m.nanos = (m.wall - zone.east) * 1000000000 + m.ofSecond := by
    rw [Stamp.nanos, zoned]
    rfl
  have instant : i.nanos =
      (m.wall - zone.east + off) * 1000000000 + (m.ofSecond / 1000 : ℕ) * 1000 := by
    rw [Instant.nanos, parsed.ms, parsed.micros]
    ring
  rw [moment, instant, target.same_tick (ofSecond_lt found)]
  constructor
  · intro none'
    constructor <;> omega
  · rintro ⟨year, seconds⟩
    omega

omit found zoned in
/-- An instant of a reading is after the first a `Date` holds, and of a year from 0 on. -/
theorem readable (small : zone.Small) (high : i.ms ≤ lastTime) :
    timeClip i.ms = some i.ms ∧ 0 ≤ (civilOf (i.ms / 86400000)).year := by
  have low := parsed.low
  have west := small.west
  have east := small.east
  have ms := parsed.ms
  constructor
  · apply timeClip_some _ high
    unfold lastTime
    omega
  · apply civilOf_year
    omega

theorem written_text {sep : Char} (between : sep ∈ [' ', 'T', 't']) {tail : List Char}
    {noted : Option Zone} (ends : Tail tail noted) {b : ℤ} :
    denoted (.text (String.ofList (utcWallClock i sep ++ tail)) : Cell α) = some b ↔
      i.ms ≤ lastTime ∧ b = i.nanos := by
  by_cases high : i.ms ≤ lastTime
  · obtain ⟨valid, year⟩ := readable parsed (found.small zone zoned) high
    rw [denoted_text parsed.whole between ends valid year, Option.some_inj]
    exact ⟨fun is => ⟨high, is.symm⟩, fun is => is.2.symm⟩
  · have invalid : timeClip i.ms = none := timeClip_none (by omega)
    rw [denoted_unreadable parsed.whole ends (by simp [invalid])]
    simp [high]

theorem written_date {b : ℤ} : (denoted (.date i.toDate : Cell α)) = some b ↔
    i.ms + spell i.micros / 1000 ≤ lastTime ∧ b = (i.ms + spell i.micros / 1000) * 1000000 := by
  rw [denoted_date parsed.whole, Int.natCast_ediv, Nat.cast_ofNat]
  by_cases high : i.ms + spell i.micros / 1000 ≤ lastTime
  · have low := parsed.low
    have west := (found.small zone zoned).west
    have east := (found.small zone zoned).east
    have ms := parsed.ms
    rw [timeClip_some (by unfold lastTime; omega) high, Option.map_some, Option.some_inj]
    exact ⟨fun is => ⟨high, is.symm⟩, fun is => is.2.symm⟩
  · rw [timeClip_none (by omega)]
    simp [high]

omit parsed found zoned in
/-- The microseconds of a text are those of the moment where its second is one a `Date` holds. -/
theorem latest_iff (whole : i.Whole) (moment : ℤ) :
    (∃ b, (i.ms ≤ lastTime ∧ b = i.nanos) ∧ b / 1000 = moment / 1000) ↔
      i.nanos / 1000 = moment / 1000 ∧ moment / 1000000 ≤ lastTime + 999 := by
  have below := whole.below
  have second := whole.second
  unfold Instant.nanos lastTime
  constructor
  · rintro ⟨b, ⟨high, rfl⟩, is⟩
    constructor <;> omega
  · rintro ⟨is, high⟩
    exact ⟨_, ⟨by omega, rfl⟩, by omega⟩

theorem written_iff (target : DatabaseEngine) :
    (∃ b, denoted (written target i : Cell α) = some b ∧ b / target.tick = m.nanos / target.tick) ↔
      m.Sound target := by
  have same := nanos_eq_iff parsed found zoned target
  have minutes : (∀ z, m.zone = some z → z.seconds = 0) ↔ zone.seconds = 0 := by
    rw [zoned]
    constructor
    · intro all
      exact all zone rfl
    · intro none' z is
      obtain rfl := Option.some.inj is
      exact none'
  have sound : m.Sound target ↔ i.nanos / target.tick = m.nanos / target.tick ∧
      m.nanos / 1000000 ≤ target.latest := by
    rw [same, ← minutes]
    exact ⟨fun h => ⟨⟨h.year, h.minutes⟩, h.holds⟩, fun h => ⟨h.1.1, h.1.2, h.2⟩⟩
  rw [sound]
  cases target <;> simp only [DatabaseEngine.tick, DatabaseEngine.latest, written]
  case mongodb =>
    have below := parsed.whole.below
    have second := parsed.whole.second
    have moment : i.nanos = i.ms * 1000000 + spell i.micros * 1000 := rfl
    simp only [written_date parsed found zoned]
    constructor
    · rintro ⟨b, ⟨high, rfl⟩, is⟩
      constructor <;> omega
    · rintro ⟨is, high⟩
      exact ⟨_, ⟨by omega, rfl⟩, by omega⟩
  case mysql =>
    have text := @written_text α m zone shift i parsed found zoned ' ' (by decide) [] none .none
    simp only [List.append_nil] at text
    simp only [text]
    exact latest_iff parsed.whole m.nanos
  all_goals
    simp only [written_text parsed found zoned (List.mem_cons_of_mem _ List.mem_cons_self) .utc]
    exact latest_iff parsed.whole m.nanos

end Same

/-!
## What the converter makes

For each target what is written is read back, and compared with what the text denoted.
-/

section Converted

variable {kind : PortableKind} {source target : DatabaseEngine} {opts : ConvertOptions}

/-- The value of a column that has a zone. -/
def converter (target : DatabaseEngine) (v : Cell α) : Cell α :=
  match target, v with
  | .mongodb, .date d => .date d
  | target, v => ((instantOf v).map (written target)).getD v

theorem timestamptzTo_eq (converts : Converts .timestamptz target opts) :
    timestamptzTo target opts = some (converter target : Cell α → Cell α) := by
  have made : ∀ (target : DatabaseEngine), target ≠ .mongodb →
      (fun v : Cell α => ((instantOf v).map (written target)).getD v) = converter target := by
    intro target other
    funext v
    cases target <;> first | rfl | exact absurd rfl other
  cases target with
  | postgres => cases converts
  | mysql =>
    rw [← made .mysql (by decide)]
    simp only [timestamptzTo, reduceCtorEq, false_and, if_false, Option.some_inj]
    funext v
    unfold wallClockCell
    cases instantOf v <;> rfl
  | sqlite =>
    rw [← made .sqlite (by decide)]
    simp only [timestamptzTo, reduceCtorEq, false_and, if_false, Option.some_inj]
    funext v
    unfold isoInstant
    cases instantOf v <;> rfl
  | redis =>
    rw [← made .redis (by decide)]
    have on : opts.isoInstants = true := converts
    simp only [timestamptzTo, on, and_self, if_true, Option.some_inj]
    funext v
    unfold isoInstant
    cases instantOf v <;> rfl
  | mongodb =>
    simp only [timestamptzTo, reduceCtorEq, false_and, if_false, Option.some_inj]
    funext v
    cases v with
    | date d => rfl
    | text s =>
      simp only [dateCell, converter, instantOf]
      cases parseInstant s.toList <;> rfl
    | null => rfl
    | other value => rfl

/-- Where a value denotes a moment, one left as it is denotes the same. -/
theorem sameInstant_iff {v w : Cell α} {a : ℤ} (is : denoted v = some a) :
    SameInstant target v w ↔ ∃ b, denoted w = some b ∧ b / target.tick = a / target.tick := by
  constructor
  · rintro (rfl | ⟨a', b, is', denotes, same⟩)
    · exact ⟨a, is, rfl⟩
    · obtain rfl := Option.some.inj (is.symm.trans is')
      exact ⟨b, denotes, same⟩
  · rintro ⟨b, denotes, same⟩
    exact Or.inr ⟨a, b, is, denotes, same⟩

/-- The instant made of a reading is written as the reading's moment where the reading is sound. -/
theorem reading_iff {v : Cell α} {m : Stamp} (is : denoted v = some m.nanos) (found : m.Found)
    {zone : Zone} (zoned : m.zone = some zone) :
    SameInstant target v ((m.parsed.map (written target)).getD v) ↔
      (m.wall * 1000 ≤ lastTime → m.Sound target) := by
  obtain ⟨late, none'⟩ | ⟨early, shift, i, parsed⟩ := parsed_cases found zoned
  · rw [none', Option.map_none, Option.getD_none]
    constructor
    · intro _ early
      omega
    · intro _
      exact Or.inl rfl
  · rw [sameInstant_iff is, parsed.is, Option.map_some, Option.getD_some,
      written_iff parsed found zoned target]
    exact ⟨fun h _ => h, fun h => h early⟩

theorem goesWell_of {s : String} {m : Stamp} (is : exec (trim s.toList) = some m) :
    GoesWell kind target (.text s : Cell α) ↔
      ((m.zone = none ↔ kind = .timestamp) → m.wall * 1000 ≤ lastTime → m.Sound target) := by
  constructor
  · intro h
    exact h m is
  · intro h m' is'
    obtain rfl := Option.some.inj (is.symm.trans is')
    exact h

theorem text_iff (s : String) :
    SameInstant target (.text s : Cell α) (converter target (.text s)) ↔
      GoesWell .timestamptz target (.text s : Cell α) := by
  have made : converter target (.text s : Cell α) =
      (((exec (trim s.toList)).bind Stamp.parsed).map (written target)).getD (.text s) := by
    cases target <;> rfl
  rw [made]
  cases is : exec (trim s.toList) with
  | none => simp [SameInstant, GoesWell, is]
  | some m =>
    rw [Option.bind_some, goesWell_of is]
    cases zoned : m.zone with
    | none =>
      have none' : m.parsed = none := by
        rw [Stamp.parsed, zoned]
        rfl
      simp [SameInstant, none']
    | some zone =>
      have denotes : denoted (.text s : Cell α) = some m.nanos := by
        rw [denoted, is, Option.map_some]
      rw [reading_iff denotes (exec_found is) zoned]
      simp

theorem trim_concat (text : List Char) : trim (trim text ++ ['Z']) = trim text ++ ['Z'] := by
  apply trim_eq
  · intro c first
    obtain none' | ⟨d, rest, is, stays⟩ := @dropWhile_head (fun c => isSpace c.toNat) text
    · have empty : trim text = [] := by
        simp [trim, none']
      rw [empty] at first
      obtain rfl : 'Z' = c := by simpa using first
      decide
    · have once : trim text = d :: (rest.reverse.dropWhile fun c => isSpace c.toNat).reverse := by
        rw [trim, is, List.reverse_cons, dropWhile_concat stays, List.reverse_append]
        rfl
      rw [once] at first
      obtain rfl : d = c := by simpa using first
      exact stays
  · intro c last
    obtain rfl : 'Z' = c := by simpa using last
    decide

/-- A reading without a zone, taken as UTC. -/
def Stamp.asUtc (m : Stamp) : Stamp := { m with zone := some .utc }

theorem asUtc_found {m : Stamp} (found : m.Found) : m.asUtc.Found := by
  refine ⟨found.month, found.day, found.hour, found.minute, found.second, found.digits, found.short, ?_⟩
  intro zone is
  obtain rfl := Option.some.inj is
  exact ⟨by decide, by decide, by decide⟩

theorem asUtc_nanos {m : Stamp} (unzoned : m.zone = none) : m.asUtc.nanos = m.nanos := by
  unfold Stamp.nanos
  rw [unzoned]
  rfl

theorem asUtc_sound {m : Stamp} (unzoned : m.zone = none) : m.asUtc.Sound target ↔ m.Sound target := by
  have same := asUtc_nanos unzoned
  constructor
  · intro h
    refine ⟨h.year, ?_, same ▸ h.holds⟩
    intro zone is
    rw [unzoned] at is
    cases is
  · intro h
    refine ⟨h.year, ?_, same ▸ h.holds⟩
    intro zone is
    obtain rfl := Option.some.inj is
    rfl

theorem readAsUtc_iff (s : String) :
    SameInstant .mongodb (.text s : Cell α) (readAsUtc (.text s)) ↔
      GoesWell .timestamp .mongodb (.text s : Cell α) := by
  have made : readAsUtc (.text s : Cell α) =
      ((((exec (trim s.toList)).bind fun m => if m.zone = none then some m.asUtc
        else none).bind Stamp.parsed).map (written .mongodb)).getD (.text s) := by
    unfold Stamp.asUtc
    rw [← exec_concat, readAsUtc, parseInstant, trim_concat]
    cases (exec (trim s.toList ++ ['Z'])).bind Stamp.parsed <;> rfl
  rw [made]
  cases is : exec (trim s.toList) with
  | none => simp [SameInstant, GoesWell, is]
  | some m =>
    rw [Option.bind_some, goesWell_of is]
    cases zoned : m.zone with
    | some zone => simp [SameInstant]
    | none =>
      have denotes : denoted (.text s : Cell α) = some m.asUtc.nanos := by
        rw [asUtc_nanos zoned, denoted, is, Option.map_some]
      rw [if_pos rfl, Option.bind_some,
        reading_iff denotes (asUtc_found (exec_found is)) rfl, asUtc_sound zoned]
      simp [Stamp.wall, Stamp.asUtc]

/-!
### A `Date`

A `Date` goes by its milliseconds; a text is made of them and read back.
-/

theorem date_micros {t : ℤ} :
    (∀ c ∈ padStart 3 (numberText (some (t - t / 1000 * 1000))) ++ ['0', '0', '0'], c.isDigit = true) ∧
      (padStart 3 (numberText (some (t - t / 1000 * 1000))) ++ ['0', '0', '0']).length = 6 ∧
        (spell (padStart 3 (numberText (some (t - t / 1000 * 1000))) ++ ['0', '0', '0']) : ℤ) =
          (t - t / 1000 * 1000) * 1000 := by
  rw [numberText_nonneg (by omega)]
  refine ⟨?_, ?_, ?_⟩
  · intro c mem
    obtain mem | mem := List.mem_append.mp mem
    · exact isDigit_padStart mem
    · have zero : c = '0' := by simpa using mem
      rw [zero]
      rfl
  · have short : (Nat.toDigits 10 (t - t / 1000 * 1000).toNat).length ≤ 3 :=
      (Nat.length_toDigits_le_iff (by decide) (by decide)).mpr (by omega)
    rw [List.length_append, length_padStart, List.length_cons, List.length_cons, List.length_cons,
      List.length_nil]
    omega
  · have zeros : (['0', '0', '0'] : List Char) = List.replicate 3 '0' := rfl
    rw [spell, Nat.ofDigitChars_append, ofDigitChars_padStart, zeros, Nat.ofDigitChars_replicate_zero]
    omega

/-- What `instantOf` makes of a time. -/
theorem instantOf_date {d : Date} {t : ℤ} (is : d.time = some t) :
    ∃ i : Instant, (instantOf (.date d : Cell α)) = some i ∧ i.Whole ∧ i.ms = t / 1000 * 1000 ∧
      i.nanos = t * 1000000 := by
  obtain ⟨digits, six, value⟩ := @date_micros t
  refine ⟨⟨t / 1000 * 1000, padStart 3 (numberText (some (t - t / 1000 * 1000))) ++ ['0', '0', '0']⟩,
    ?_, ⟨?_, digits, six⟩, rfl, ?_⟩
  · rw [instantOf, is]
    rfl
  · dsimp only
    omega
  · unfold Instant.nanos
    rw [value]
    dsimp only
    omega

theorem date_text_iff {d : Date} {t : ℤ} (is : d.time = some t) {i : Instant} (whole : i.Whole)
    (ms : i.ms = t / 1000 * 1000) (nanos : i.nanos = t * 1000000) {sep : Char}
    (between : sep ∈ [' ', 'T', 't']) {tail : List Char} {noted : Option Zone} (ends : Tail tail noted)
    {tick : ℤ} :
    (∃ b, denoted (.text (String.ofList (utcWallClock i sep ++ tail)) : Cell α) = some b ∧
      b / tick = t * 1000000 / tick) ↔ ∀ year, getUTCFullYear d = some year → 0 ≤ year := by
  have clipped := d.clipped t is
  have within : -lastTime ≤ t ∧ t ≤ lastTime := by
    unfold timeClip at clipped
    split at clipped
    · assumption
    · cases clipped
  have valid : timeClip i.ms = some i.ms := by
    obtain ⟨low, high⟩ := within
    unfold lastTime at low high
    apply timeClip_some <;> unfold lastTime <;> omega
  have day : i.ms / 86400000 = t / 86400000 := by omega
  have year : (∀ year, getUTCFullYear d = some year → 0 ≤ year) ↔
      0 ≤ (civilOf (i.ms / 86400000)).year := by
    rw [getUTCFullYear, is, day]
    simp
  rw [year]
  constructor
  · rintro ⟨b, denotes, -⟩
    by_contra before
    have unread := @denoted_unreadable α i whole sep tail noted ends (by
      intro t' valid'
      obtain rfl := Option.some.inj (valid.symm.trans valid')
      omega)
    rw [unread] at denotes
    cases denotes
  · intro readable
    exact ⟨i.nanos, denoted_text whole between ends valid readable, by rw [nanos]⟩

theorem date_iff (other : target ≠ .mongodb) (d : Date) :
    SameInstant target (.date d : Cell α) (converter target (.date d)) ↔
      GoesWell .timestamptz target (.date d : Cell α) := by
  have made : converter target (.date d : Cell α) =
      ((instantOf (.date d : Cell α)).map (written target)).getD (.date d) := by
    cases target <;> first | rfl | exact absurd rfl other
  have goes : GoesWell .timestamptz target (.date d : Cell α) ↔
      ∀ year, getUTCFullYear d = some year → 0 ≤ year :=
    ⟨fun h => h other, fun h _ => h⟩
  rw [made, goes]
  cases is : d.time with
  | none =>
    have none' : instantOf (.date d : Cell α) = none := by
      rw [instantOf, is]
      rfl
    simp [SameInstant, none', getUTCFullYear, is]
  | some t =>
    obtain ⟨i, made, whole, ms, nanos⟩ := @instantOf_date α d t is
    have denotes : denoted (.date d : Cell α) = some (t * 1000000) := by
      rw [denoted, is, Option.map_some]
    rw [made, Option.map_some, Option.getD_some, sameInstant_iff denotes]
    cases target with
    | mongodb => exact absurd rfl other
    | mysql =>
      have text := @date_text_iff α d t is i whole ms nanos ' ' (by decide) [] none .none
      rw [← text, List.append_nil]
      rfl
    | postgres =>
      exact date_text_iff is whole ms nanos (List.mem_cons_of_mem _ List.mem_cons_self) .utc
    | sqlite =>
      exact date_text_iff is whole ms nanos (List.mem_cons_of_mem _ List.mem_cons_self) .utc
    | redis =>
      exact date_text_iff is whole ms nanos (List.mem_cons_of_mem _ List.mem_cons_self) .utc

/-!
### Any value

Of values that are neither text nor `Date` the converter makes nothing. Which converter a column has,
and what becomes of MySQL's zero dates before it, is the last of it.
-/

theorem converter_iff (v : Cell α) : SameInstant target v (converter target v) ↔
    GoesWell .timestamptz target v := by
  cases v with
  | text s => exact text_iff s
  | date d =>
    by_cases mongodb : target = .mongodb
    · obtain rfl := mongodb
      exact ⟨fun _ other => absurd rfl other, fun _ => Or.inl rfl⟩
    · exact date_iff mongodb d
  | null => cases target <;> exact ⟨fun _ => trivial, fun _ => Or.inl rfl⟩
  | other value => cases target <;> exact ⟨fun _ => trivial, fun _ => Or.inl rfl⟩

end Converted

section Any

variable (kind : PortableKind) (source target : DatabaseEngine) (opts : ConvertOptions)

/-- The converter of a kind, but for zero dates. -/
def convert : Option (Cell α → Cell α) :=
  match kind with
  | .timestamptz => timestamptzTo target opts
  | .timestamp => if target = .mongodb then some readAsUtc else none
  | .date => none

theorem converted_zero {v : Cell α} (other : target ≠ .mysql) (zero : isZeroDate v = true) :
    converted kind .mysql target opts v = .null := by
  unfold converted valueConverterFor
  rw [if_neg (fun same => other same.symm), if_pos rfl, Option.map_some, Option.getD_some]
  exact if_pos zero

theorem converted_eq {v : Cell α} (other : source ≠ target)
    (date : ¬ (source = .mysql ∧ isZeroDate v = true)) :
    converted kind source target opts v = ((convert kind target opts).map (· v)).getD v := by
  unfold converted valueConverterFor
  rw [if_neg other]
  by_cases mysql : source = .mysql
  · rw [if_pos mysql, Option.map_some, Option.getD_some]
    exact if_neg fun zero => date ⟨mysql, zero⟩
  · rw [if_neg mysql]
    rfl

/-- **A converted value denotes the same instant** exactly where nothing is converted, the value is a
zero date, or its reading is sound: of a year from 100 on, at whole minutes, and of a moment that the
target's form holds. -/
theorem keeps_iff (v : Cell α) : Keeps source target v (converted kind source target opts v) ↔
    source = target ∨ ¬ Converts kind target opts ∨ (source = .mysql ∧ isZeroDate v) ∨
      GoesWell kind target v := by
  by_cases same : source = target
  · have untouched : converted kind source target opts v = v := by
      unfold converted valueConverterFor
      rw [if_pos same]
      rfl
    have noZero : ¬ (source = .mysql ∧ target ≠ .mysql ∧ isZeroDate v = true) := by
      rintro ⟨mysql, other, -⟩
      exact other (same ▸ mysql)
    rw [Keeps, if_neg noZero, untouched]
    simp [SameInstant, same]
  · by_cases zero : source = .mysql ∧ isZeroDate v = true
    · obtain ⟨rfl, zero⟩ := zero
      have other : target ≠ .mysql := fun mysql => same mysql.symm
      rw [Keeps, if_pos ⟨rfl, other, zero⟩, converted_zero kind target opts other zero]
      simp [zero]
    · have noZero : ¬ (source = .mysql ∧ target ≠ .mysql ∧ isZeroDate v = true) := fun h =>
        zero ⟨h.1, h.2.2⟩
      rw [Keeps, if_neg noZero, converted_eq kind source target opts same zero]
      simp only [same, zero, false_or]
      by_cases converts : Converts kind target opts
      · simp only [converts, not_true_eq_false, false_or]
        cases kind with
        | timestamptz =>
          rw [convert, timestamptzTo_eq converts]
          exact converter_iff v
        | timestamp =>
          obtain rfl : target = .mongodb := converts
          have made : (convert .timestamp .mongodb opts : Option (Cell α → Cell α)) = some readAsUtc := by
            simp only [convert, if_true]
          rw [made, Option.map_some, Option.getD_some]
          cases v with
          | text s => exact readAsUtc_iff s
          | date d => exact ⟨fun _ other => absurd rfl other, fun _ => Or.inl rfl⟩
          | null => exact ⟨fun _ => trivial, fun _ => Or.inl rfl⟩
          | other value => exact ⟨fun _ => trivial, fun _ => Or.inl rfl⟩
        | date => exact absurd converts id
      · have none' : (convert kind target opts : Option (Cell α → Cell α)) = none := by
          cases kind with
          | timestamptz =>
            cases target with
            | postgres => rfl
            | redis =>
              have off : ¬ opts.isoInstants = true := converts
              simp [convert, timestamptzTo, off]
            | mysql => exact absurd trivial converts
            | sqlite => exact absurd trivial converts
            | mongodb => exact absurd trivial converts
          | timestamp => exact if_neg converts
          | date => rfl
        simp [SameInstant, none', converts]

end Any

/-- Berlin's mean time, as PostgreSQL writes it: 28 seconds are lost. -/
theorem meanTime_seconds_lost :
    ¬ Keeps .postgres .mysql (.text "1890-01-01 00:00:00+00:53:28" : Cell Unit)
      (converted .timestamptz .postgres .mysql {} (.text "1890-01-01 00:00:00+00:53:28")) := by
  intro keeps
  have moment : denoted (.text "1890-01-01 00:00:00+00:53:28" : Cell Unit) =
      some (-2524524808000000000) := by
    decide +kernel
  have stored : denoted (converted .timestamptz .postgres .mysql {}
      (.text "1890-01-01 00:00:00+00:53:28" : Cell Unit)) = some (-2524524780000000000) := by
    decide +kernel
  have noZero : ¬ (DatabaseEngine.postgres = .mysql ∧ DatabaseEngine.mysql ≠ .mysql ∧
      isZeroDate (.text "1890-01-01 00:00:00+00:53:28" : Cell Unit) = true) := fun h =>
    absurd h.1 (by decide)
  rw [Keeps, if_neg noZero, sameInstant_iff moment] at keeps
  obtain ⟨b, is, same⟩ := keeps
  obtain rfl := Option.some.inj (stored.symm.trans is)
  exact absurd same (by decide)

end Syncle.Values
