import Syncle.Js.RegExp
import Syncle.Lib.Calendar
import Syncle.Lib.Decimal

/-!
# Timestamps between engines (`packages/core/src/bridges/value-map.ts`)

A moment is read from the text or the `Date` an engine's driver hands over and is written the way the
target takes it. A fractional second is kept by its digits; a `Date` is its UTC milliseconds.
-/

namespace Syncle.Values

open Syncle.Js Syncle.Lib

inductive DatabaseEngine where
  | postgres
  | mysql
  | sqlite
  | mongodb
  | redis
  deriving DecidableEq

/-- …of a column that holds days or moments. -/
inductive PortableKind where
  | date
  | timestamp
  | timestamptz
  deriving DecidableEq

/-! ## `Date` -/

/-- The milliseconds either side of 1970 that a `Date` goes to. -/
def lastTime : ℤ := 8640000000000000

def timeClip (time : ℤ) : Option ℤ :=
  if -lastTime ≤ time ∧ time ≤ lastTime then some time else none

/-- A `Date`; an invalid one has no time. -/
structure Date where
  time : Option ℤ
  clipped : ∀ t, time = some t → timeClip t = some t

theorem timeClip_eq {time t : ℤ} (h : timeClip time = some t) : timeClip t = some t := by
  have same : time = t := by
    unfold timeClip at h
    split at h
    · exact Option.some.inj h
    · exact absurd h (by simp)
  rw [same] at h
  exact h

/-- `new Date(ms)` -/
def newDate (ms : ℤ) : Date := ⟨timeClip ms, fun _ => timeClip_eq⟩

/-- The day a month starts on and a day of it. A month past its year's last is in a later year. -/
def makeDay (year month day : ℤ) : ℤ := dayNumber (year + month / 12) (month % 12 + 1) day

/-- …and the seconds of a time of that day. -/
def makeTime (year month day hour minute second : ℤ) : ℤ :=
  makeDay year month day * 86400 + hour * 3600 + minute * 60 + second

/-- `Date.UTC`: years up to 99 are those of the twentieth century. -/
def dateUTC (year month day hour minute second : ℤ) : Option ℤ :=
  let full := if 0 ≤ year ∧ year ≤ 99 then 1900 + year else year
  timeClip (makeTime full month day hour minute second * 1000)

def getUTCFullYear (d : Date) : Option ℤ := d.time.map fun t => (civilOf (t / 86400000)).year

def getUTCMonth (d : Date) : Option ℤ := d.time.map fun t => (civilOf (t / 86400000)).month - 1

def getUTCDate (d : Date) : Option ℤ := d.time.map fun t => (civilOf (t / 86400000)).day

def getUTCHours (d : Date) : Option ℤ := d.time.map fun t => t / 3600000 % 24

def getUTCMinutes (d : Date) : Option ℤ := d.time.map fun t => t / 60000 % 60

def getUTCSeconds (d : Date) : Option ℤ := d.time.map fun t => t / 1000 % 60

/-! ## The pattern `TS` -/

/-- What follows a reading: `Z`, or an offset. -/
inductive Zone where
  | utc
  | offset (west : Bool) (hours minutes seconds : ℕ)
  deriving DecidableEq

/-- The groups of `TS`. -/
structure Stamp where
  year : ℕ
  month : ℕ
  day : ℕ
  hour : ℕ
  minute : ℕ
  second : ℕ
  fraction : List Char
  zone : Option Zone
  deriving DecidableEq

def spell (digits : List Char) : ℕ := Nat.ofDigitChars 10 digits 0

def takeOne (p : Char → Bool) : List Char → Option (List Char)
  | c :: rest => if p c then some rest else none
  | [] => none

/-- `\d\d` -/
def twoDigits : List Char → Option (ℕ × List Char)
  | a :: b :: rest => if a.isDigit ∧ b.isDigit then some (spell [a, b], rest) else none
  | _ => none

/-- `(?:\.(\d{1,9}))?` -/
def takeFraction (text : List Char) : Option (List Char × List Char) :=
  match text with
  | '.' :: rest =>
    let digits := rest.takeWhile Char.isDigit
    if 1 ≤ digits.length ∧ digits.length ≤ 9 then some (digits, rest.dropWhile Char.isDigit) else none
  | _ => some ([], text)

/-- `(?::?\d\d)?` -/
def offsetMinutes (text : List Char) : ℕ × List Char :=
  match twoDigits text, (takeOne (· = ':') text).bind twoDigits with
  | some read, _ => read
  | none, some read => read
  | none, none => (0, text)

/-- `(?::\d\d)?` -/
def offsetSeconds (text : List Char) : ℕ × List Char :=
  ((takeOne (· = ':') text).bind twoDigits).getD (0, text)

/-- `(Z|[+-]\d\d(?::?\d\d)?(?::\d\d)?)?$`; an offset's groups are 0 where it leaves them out. -/
def takeZone (text : List Char) : Option (Option Zone) :=
  match text with
  | [] => some none
  | c :: rest =>
    if c = 'Z' ∨ c = 'z' then if rest = [] then some (some .utc) else none
    else if c = '+' ∨ c = '-' then do
      let (hours, rest) ← twoDigits rest
      let (minutes, rest) := offsetMinutes rest
      let (seconds, rest) := offsetSeconds rest
      if rest = [] then some (some (.offset (c = '-') hours minutes seconds)) else none
    else none

/-- `TS.exec` -/
def exec (text : List Char) : Option Stamp := do
  let year := text.takeWhile Char.isDigit
  if year.length < 4 then none
  else
    let rest ← takeOne (· = '-') (text.dropWhile Char.isDigit)
    let (month, rest) ← twoDigits rest
    let rest ← takeOne (· = '-') rest
    let (day, rest) ← twoDigits rest
    let rest ← takeOne (· ∈ [' ', 'T', 't']) rest
    let (hour, rest) ← twoDigits rest
    let rest ← takeOne (· = ':') rest
    let (minute, rest) ← twoDigits rest
    let rest ← takeOne (· = ':') rest
    let (second, rest) ← twoDigits rest
    let (fraction, rest) ← takeFraction rest
    let zone ← takeZone (rest.dropWhile fun c => isSpace c.toNat)
    return { year := spell year, month, day, hour, minute, second, fraction, zone }

/-! ## Moments -/

structure Instant where
  ms : ℤ
  micros : List Char

def padEnd (width : ℕ) (digits : List Char) : List Char :=
  digits ++ List.replicate (width - digits.length) '0'

def Zone.offsetMin : Zone → ℤ
  | .utc => 0
  | .offset west hours minutes _ => (hours * 60 + minutes) * if west then -1 else 1

/-- `parseInstant`, of what `TS` finds. -/
def Stamp.parsed (m : Stamp) : Option Instant := do
  let zone ← m.zone
  let ms ← dateUTC m.year (m.month - 1) m.day m.hour m.minute m.second
  return { ms := ms - zone.offsetMin * 60000, micros := (padEnd 6 m.fraction).take 6 }

def parseInstant (text : List Char) : Option Instant := (exec (trim text)).bind Stamp.parsed

/-- `String(n)` -/
def numberText : Option ℤ → List Char
  | none => ['N', 'a', 'N']
  | some (.ofNat n) => Nat.toDigits 10 n
  | some (.negSucc n) => '-' :: Nat.toDigits 10 (n + 1)

def two (n : Option ℤ) : List Char := padStart 2 (numberText n)

def utcWallClock (i : Instant) (sep : Char) : List Char :=
  let d := newDate i.ms
  padStart 4 (numberText (getUTCFullYear d)) ++ '-' :: two ((getUTCMonth d).map (· + 1)) ++
    '-' :: two (getUTCDate d) ++ sep :: two (getUTCHours d) ++ ':' :: two (getUTCMinutes d) ++
    ':' :: two (getUTCSeconds d) ++ '.' :: i.micros

/-- What a row holds; `other` is a value of none of the kinds told apart here. -/
inductive Cell (α : Type) where
  | null
  | text (s : String)
  | date (d : Date)
  | other (value : α)

variable {α : Type}

def instantOf : Cell α → Option Instant
  | .date d => d.time.map fun t =>
      { ms := t / 1000 * 1000
        micros := padStart 3 (numberText (some (t - t / 1000 * 1000))) ++ ['0', '0', '0'] }
  | .text s => parseInstant s.toList
  | _ => none

/-- `/^(0000-\d\d-\d\d|\d{4}-00-\d\d|\d{4}-\d\d-00)/` -/
def isZeroText (text : List Char) : Bool :=
  match text with
  | a :: b :: c :: d :: '-' :: e :: f :: '-' :: g :: h :: _ =>
    [a, b, c, d, e, f, g, h].all Char.isDigit ∧
      (spell [a, b, c, d] = 0 ∨ spell [e, f] = 0 ∨ spell [g, h] = 0)
  | _ => false

def isZeroDate : Cell α → Bool
  | .text s => isZeroText s.toList
  | _ => false

/-! ## The converters -/

def wallClockCell (v : Cell α) : Cell α :=
  match instantOf v with
  | some i => .text (String.ofList (utcWallClock i ' '))
  | none => v

def isoInstant (v : Cell α) : Cell α :=
  match instantOf v with
  | some i => .text (String.ofList (utcWallClock i 'T' ++ ['Z']))
  | none => v

/-- `new Date(i.ms + Number(i.micros.slice(0, 3)))` -/
def Instant.toDate (i : Instant) : Date := newDate (i.ms + spell (i.micros.take 3))

def dateCell (v : Cell α) : Cell α :=
  match v with
  | .date _ => v
  | _ =>
    match instantOf v with
    | some i => .date i.toDate
    | none => v

structure ConvertOptions where
  isoInstants : Bool := false

def timestamptzTo (target : DatabaseEngine) (opts : ConvertOptions) : Option (Cell α → Cell α) :=
  if target = .redis ∧ opts.isoInstants then some isoInstant
  else
    match target with
    | .mysql => some wallClockCell
    | .sqlite => some isoInstant
    | .mongodb => some dateCell
    | _ => none

/-- A reading without a zone, taken as UTC. -/
def readAsUtc : Cell α → Cell α
  | .text s =>
    match parseInstant (trim s.toList ++ ['Z']) with
    | some i => .date i.toDate
    | none => .text s
  | v => v

/-- The converter of a column, by the kind its type is found to be. -/
def valueConverterFor (kind : PortableKind) (source target : DatabaseEngine) (opts : ConvertOptions) :
    Option (Cell α → Cell α) :=
  if source = target then none
  else
    let convert :=
      match kind with
      | .timestamptz => timestamptzTo target opts
      | .timestamp => if target = .mongodb then some readAsUtc else none
      | .date => none
    if source = .mysql then
      some fun v => if isZeroDate v then .null else (convert.map (· v)).getD v
    else convert

end Syncle.Values
