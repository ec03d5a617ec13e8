import Mathlib.Algebra.Order.Ring.Nat
import Mathlib.Data.List.Basic
import Mathlib.Tactic.Common

/-!
# Internet addresses and how they are written

An address of version 4 is written as four decimal bytes. One of version 6 is written as hexadecimal
groups, the first of the longest runs of two or more zeros left out. A name service writes the last two
groups of an address that carries one of version 4 as that address is written; a URL does not.
-/

namespace Syncle.Lib

/-! ## Addresses -/

structure V4 where
  a : Fin 256
  b : Fin 256
  c : Fin 256
  d : Fin 256
  deriving DecidableEq

instance neZero_groups : NeZero 65536 := ⟨by decide⟩

structure V6 where
  g0 : Fin 65536
  g1 : Fin 65536
  g2 : Fin 65536
  g3 : Fin 65536
  g4 : Fin 65536
  g5 : Fin 65536
  g6 : Fin 65536
  g7 : Fin 65536
  deriving DecidableEq

inductive Addr where
  | v4 (ip : V4)
  | v6 (ip : V6)
  deriving DecidableEq

namespace V6

def groups (ip : V6) : List ℕ := [ip.g0, ip.g1, ip.g2, ip.g3, ip.g4, ip.g5, ip.g6, ip.g7]

/-- The bytes of the last two groups. -/
def low (ip : V6) : V4 where
  a := ⟨ip.g6 / 256, by omega⟩
  b := ⟨ip.g6 % 256, by omega⟩
  c := ⟨ip.g7 / 256, by omega⟩
  d := ⟨ip.g7 % 256, by omega⟩

def Mapped (ip : V6) : Prop :=
  ip.g0 = 0 ∧ ip.g1 = 0 ∧ ip.g2 = 0 ∧ ip.g3 = 0 ∧ ip.g4 = 0 ∧ ip.g5 = 0xFFFF

def Compatible (ip : V6) : Prop :=
  ip.g0 = 0 ∧ ip.g1 = 0 ∧ ip.g2 = 0 ∧ ip.g3 = 0 ∧ ip.g4 = 0 ∧ ip.g5 = 0

instance (ip : V6) : Decidable ip.Mapped := by unfold Mapped; infer_instance

instance (ip : V6) : Decidable ip.Compatible := by unfold Compatible; infer_instance

end V6

/-! ## Texts -/

def dotted (ip : V4) : List Char :=
  Nat.toDigits 10 ip.a ++ '.' :: (Nat.toDigits 10 ip.b ++ '.' ::
    (Nat.toDigits 10 ip.c ++ '.' :: Nat.toDigits 10 ip.d))

def joinGroups : List ℕ → List Char
  | [] => []
  | [g] => Nat.toDigits 16 g
  | g :: rest => Nat.toDigits 16 g ++ ':' :: joinGroups rest

def zerosAt (groups : List ℕ) (i : ℕ) : ℕ := ((groups.drop i).takeWhile (· = 0)).length

/-- Where the first of the longest runs of zeros begins, and how long it is. -/
def longestRun (groups : List ℕ) : ℕ × ℕ :=
  (List.range groups.length).foldl
    (fun best i => if best.2 < zerosAt groups i then (i, zerosAt groups i) else best) (0, 0)

def hexText (ip : V6) : List Char :=
  let run := longestRun ip.groups
  if 2 ≤ run.2 then
    joinGroups (ip.groups.take run.1) ++ ':' :: ':' :: joinGroups (ip.groups.drop (run.1 + run.2))
  else joinGroups ip.groups

/-- The text of a host in a URL, without the brackets. -/
def Addr.urlText : Addr → List Char
  | .v4 ip => dotted ip
  | .v6 ip => hexText ip

/-- The text that a name service answers. -/
def Addr.lookupText : Addr → List Char
  | .v4 ip => dotted ip
  | .v6 ip =>
    if ip.Mapped then "::ffff:".toList ++ dotted ip.low
    else if ip.Compatible ∧ (ip.g6 ≠ 0 ∨ 1 < ip.g7) then ':' :: ':' :: dotted ip.low
    else hexText ip

/-! ## The letters of a text -/

theorem mem_toDigits {n : ℕ} {c : Char} (mem : c ∈ Nat.toDigits 16 n) :
    ∃ d < 16, c = Nat.digitChar d := by
  induction n using Nat.strongRecOn with
  | _ n ih =>
    by_cases small : n < 16
    · rw [Nat.toDigits_of_lt_base small, List.mem_singleton] at mem
      exact ⟨n, small, mem⟩
    · rw [Nat.toDigits_of_base_le (by decide) (Nat.le_of_not_lt small), List.mem_append,
        List.mem_singleton] at mem
      rcases mem with front | last
      · exact ih (n / 16) (by omega) front
      · exact ⟨n % 16, Nat.mod_lt _ (by decide), last⟩

/-- What an address is written with. -/
def addressLetters : List Char := "0123456789abcdef:".toList

theorem mem_letters_toDigits {n : ℕ} {c : Char} (mem : c ∈ Nat.toDigits 16 n) :
    c ∈ addressLetters := by
  obtain ⟨d, small, rfl⟩ := mem_toDigits mem
  have all : ∀ d < 16, Nat.digitChar d ∈ addressLetters := by decide
  exact all d small

theorem mem_joinGroups {groups : List ℕ} {c : Char} (mem : c ∈ joinGroups groups) :
    c ∈ addressLetters := by
  induction groups with
  | nil => exact absurd mem List.not_mem_nil
  | cons g groups ih =>
    cases groups with
    | nil => exact mem_letters_toDigits mem
    | cons g' groups =>
      rw [joinGroups, List.mem_append, List.mem_cons] at mem
      · rcases mem with first | rfl | rest
        · exact mem_letters_toDigits first
        · decide
        · exact ih rest
      · exact List.cons_ne_nil _ _

theorem mem_hexText {ip : V6} {c : Char} (mem : c ∈ hexText ip) : c ∈ addressLetters := by
  simp only [hexText] at mem
  split at mem
  · rw [List.mem_append, List.mem_cons, List.mem_cons] at mem
    rcases mem with front | rfl | rfl | back
    · exact mem_joinGroups front
    · decide
    · decide
    · exact mem_joinGroups back
  · exact mem_joinGroups mem

theorem dot_not_mem_hexText {ip : V6} : '.' ∉ hexText ip := by
  intro mem
  exact absurd (mem_hexText mem) (by decide)

/-! ## How a text begins -/

/-- A run that is found is one. -/
theorem longestRun_eq (groups : List ℕ) :
    (longestRun groups).2 = 0 ∨ (longestRun groups).2 = zerosAt groups (longestRun groups).1 := by
  have walk (is : List ℕ) (best : ℕ × ℕ) (sound : best.2 = 0 ∨ best.2 = zerosAt groups best.1) :
      let found := is.foldl
        (fun best i => if best.2 < zerosAt groups i then (i, zerosAt groups i) else best) best
      found.2 = 0 ∨ found.2 = zerosAt groups found.1 := by
    induction is generalizing best with
    | nil => exact sound
    | cons i is ih =>
      rw [List.foldl_cons]
      split
      · exact ih _ (Or.inr rfl)
      · exact ih _ sound
  exact walk _ _ (Or.inl rfl)

theorem joinGroups_cons {g : ℕ} {rest : List ℕ} (some_ : rest ≠ []) :
    joinGroups (g :: rest) = Nat.toDigits 16 g ++ ':' :: joinGroups rest := by
  cases rest with
  | nil => exact absurd rfl some_
  | cons g' rest => rfl

/-- The first group is there unless it is zero. -/
theorem hexText_of_pos {ip : V6} (pos : ip.g0 ≠ 0) :
    ∃ tail, hexText ip = Nat.toDigits 16 ip.g0 ++ ':' :: tail := by
  have first : zerosAt ip.groups 0 = 0 := by
    have nonzero : ¬ (ip.g0 : ℕ) = 0 := fun is => pos (Fin.ext is)
    simp [zerosAt, V6.groups, nonzero]
  simp only [hexText]
  split
  · rename_i long
    have is := longestRun_eq ip.groups
    cases start : (longestRun ip.groups).1 with
    | zero =>
      rw [start, first] at is
      omega
    | succ i =>
      rw [V6.groups, List.take_succ_cons]
      generalize [(ip.g1 : ℕ), ip.g2, ip.g3, ip.g4, ip.g5, ip.g6, ip.g7].take i = more
      cases more with
      | nil => exact ⟨_, rfl⟩
      | cons g more =>
        rw [joinGroups_cons (List.cons_ne_nil _ _), List.append_assoc]
        exact ⟨_, rfl⟩
  · exact ⟨_, joinGroups_cons (List.cons_ne_nil _ _)⟩

theorem hexText_mapped {ip : V6} (mapped : ip.Mapped) :
    hexText ip = "::ffff:".toList ++ (Nat.toDigits 16 ip.g6 ++ ':' :: Nat.toDigits 16 ip.g7) := by
  obtain ⟨h0, h1, h2, h3, h4, h5⟩ := mapped
  have run : longestRun ip.groups = (0, 5) := by
    by_cases z6 : (ip.g6 : ℕ) = 0 <;> by_cases z7 : (ip.g7 : ℕ) = 0 <;>
      simp [longestRun, V6.groups, h0, h1, h2, h3, h4, h5, List.range_succ, zerosAt, z6, z7]
  simp only [hexText, run]
  rw [V6.groups, h5]
  rfl

/-- …and where its upper half is not zero, all of the address that an address carries is. -/
theorem hexText_compatible {ip : V6} (compatible : ip.Compatible) (pos : ip.g6 ≠ 0) :
    hexText ip = ':' :: ':' :: (Nat.toDigits 16 ip.g6 ++ ':' :: Nat.toDigits 16 ip.g7) := by
  obtain ⟨h0, h1, h2, h3, h4, h5⟩ := compatible
  have nonzero : ¬ (ip.g6 : ℕ) = 0 := fun is => pos (Fin.ext is)
  have run : longestRun ip.groups = (0, 6) := by
    by_cases z7 : (ip.g7 : ℕ) = 0 <;>
      simp [longestRun, V6.groups, h0, h1, h2, h3, h4, h5, List.range_succ, zerosAt, nonzero, z7]
  simp only [hexText, run]
  rfl

/-! ## Dotted texts -/

theorem dot_not_mem_toDigits {n : ℕ} : '.' ∉ Nat.toDigits 10 n := by
  intro mem
  exact absurd (Nat.isDigit_of_mem_toDigits (by decide) (by decide) mem) (by decide)

theorem splitOn_dotted (front : List Char) (none_ : '.' ∉ front) (ip : V4) :
    (front ++ dotted ip).splitOn '.' =
      [front ++ Nat.toDigits 10 ip.a, Nat.toDigits 10 ip.b, Nat.toDigits 10 ip.c, Nat.toDigits 10 ip.d] := by
  have first : '.' ∉ front ++ Nat.toDigits 10 ip.a := by
    rw [List.mem_append]
    exact fun mem => mem.elim none_ dot_not_mem_toDigits
  rw [dotted, ← List.append_assoc, List.splitOn_append_cons_self_of_not_mem first,
    List.splitOn_append_cons_self_of_not_mem dot_not_mem_toDigits,
    List.splitOn_append_cons_self_of_not_mem dot_not_mem_toDigits,
    List.splitOn_eq_singleton dot_not_mem_toDigits]

end Syncle.Lib
