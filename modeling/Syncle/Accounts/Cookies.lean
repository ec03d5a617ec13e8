import Syncle.Js.RegExp
import Syncle.Lib.Unicode

/-!
# One cookie of a request (`readCookie`)

A `Cookie` header is cut at its semicolons; the first part of the name that is looked for is
percent-decoded. Whatever the client sent, the reader answers: what cannot be decoded is no cookie.
-/

namespace Syncle.Accounts

open Syncle.Lib Syncle.Js

/-! ## Percent-encoding -/

def hexValue (c : Char) : Option ℕ :=
  if '0' ≤ c ∧ c ≤ '9' then some (c.toNat - '0'.toNat)
  else if 'a' ≤ c ∧ c ≤ 'f' then some (c.toNat - 'a'.toNat + 10)
  else if 'A' ≤ c ∧ c ≤ 'F' then some (c.toNat - 'A'.toNat + 10)
  else none

/-- A letter as it stands, or an octet of one. -/
inductive Piece where
  | letter (c : Char)
  | octet (n : ℕ)

def pieces : List Char → Option (List Piece)
  | '%' :: a :: b :: rest => do
    let high ← hexValue a
    let low ← hexValue b
    return .octet (high * 16 + low) :: (← pieces rest)
  | '%' :: _ => none
  | c :: rest => do return .letter c :: (← pieces rest)
  | [] => some []

/-- How many octets follow a first one; none where no letter begins so. -/
def following (first : ℕ) : Option ℕ :=
  if first < 0x80 then some 0
  else if first < 0xC0 then none
  else if first < 0xE0 then some 1
  else if first < 0xF0 then some 2
  else if first < 0xF8 then some 3
  else none

/-- The letter of some octets: only the shortest form of a letter is one. -/
def letterOf (octets : List ℕ) : Option Char :=
  match readUtf8 octets with
  | some (n, []) => if utf8 (Char.ofNat n) = octets then some (Char.ofNat n) else none
  | _ => none

/-- `pending` holds the octets of a letter that is not complete, and how many are still to come. -/
def joinPieces : List ℕ × ℕ → List Piece → Option (List Char)
  | (_, 0), [] => some []
  | (_, _ + 1), [] => none
  | (_, 0), .letter c :: rest => do return c :: (← joinPieces ([], 0) rest)
  | (_, _ + 1), .letter _ :: _ => none
  | (_, 0), .octet n :: rest => do
    match ← following n with
    | 0 => return (← letterOf [n]) :: (← joinPieces ([], 0) rest)
    | more + 1 => joinPieces ([n], more + 1) rest
  | (octets, 1), .octet n :: rest => do
    return (← letterOf (octets ++ [n])) :: (← joinPieces ([], 0) rest)
  | (octets, more + 2), .octet n :: rest => joinPieces (octets ++ [n], more + 1) rest

/-- none: it throws -/
def decodeURIComponent (text : List Char) : Option (List Char) := do
  joinPieces ([], 0) (← pieces text)

/-! ## The header -/

def readParts (name : List Char) : List (List Char) → Option (List Char)
  | [] => none
  | part :: rest =>
    match part.idxOf? '=' with
    | none => readParts name rest
    | some eq =>
      if trim (part.take eq) = name then decodeURIComponent (trim (part.drop (eq + 1)))
      else readParts name rest

/-- `readCookie`, with the header of the request; none where there is none. -/
def readCookie (header : Option (List Char)) (name : List Char) : Option (List Char) :=
  match header with
  | none | some [] => none
  | some header => readParts name (header.splitOn ';')

end Syncle.Accounts
