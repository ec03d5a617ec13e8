import Syncle.Lib.Tasks

/-!
# Password reset codes (`requestPasswordReset`, `resetPassword`)

A code "works once, and dies after ten wrong guesses whoever made them". An attempt reads the
accounts that have a code out, and writes: the account whose code it is gets the new password and
loses the code; where the code is no account's, every code that is out gets a failure more, which is
the number that was read and one. Between the two come other attempts, and other codes.

A code is told by its hash, and no code comes twice (72 random bits). The lockout by address is left
out: it keeps attempts away, and an attempt can come from any address.
-/

namespace Syncle.Accounts

open Lib

def RESET_TTL_MS : ℕ := 15 * 60000
def RESET_MIN_INTERVAL_MS : ℕ := 60000
def RESET_MAX_FAILURES : ℕ := 10

/-- `AppUser`, as far as a reset reads it. -/
structure ResetRow where
  id : ℕ
  disabledAt : Bool
  /-- `resetCodeHash` -/
  code : Option ℕ
  mintedAt : ℕ
  expiresAt : ℕ
  failures : ℕ
  deriving DecidableEq

/-- The table and the clock; and what no code reads: the codes that were made, the wrong guesses
against each, how many of these were written down, and the passwords that were set, each with its
code and the wrong guesses made against it by then. -/
structure ResetWorld where
  rows : List ResetRow
  now : ℕ := 0
  issued : List ℕ := []
  guesses : ℕ → ℕ := fun _ => 0
  counted : ℕ → ℕ := fun _ => 0
  successes : List (ℕ × ℕ) := []

inductive ResetRequest where
  /-- a code is asked for, and `code` is made -/
  | ask (id : ℕ) (code : ℕ)
  | attempt (code : ℕ)
  deriving DecidableEq

inductive ResetTask where
  | asking (id : ℕ) (code : ℕ)
  | minting (id : ℕ) (code : ℕ) (now : ℕ)
  | finding (code : ℕ)
  /-- the code is this account's -/
  | setting (user : ResetRow) (code : ℕ)
  /-- it is nobody's: these are left to be written -/
  | counting (candidates : List ResetRow)
  deriving DecidableEq

/-- `CLEARED_RESET` -/
def ResetRow.cleared (row : ResetRow) : ResetRow :=
  { row with code := none, mintedAt := 0, expiresAt := 0, failures := 0 }

/-- Is there a code not yet a minute old? -/
def ResetRow.fresh (row : ResetRow) (now : ℕ) : Bool :=
  row.code.isSome && decide (now < row.expiresAt) &&
    decide (now - row.mintedAt < RESET_MIN_INTERVAL_MS)

namespace ResetWorld

variable (w : ResetWorld)

/-- `appUser.update({ where: { id } })` -/
def update (id : ℕ) (f : ResetRow → ResetRow) : ResetWorld :=
  { w with rows := w.rows.map fun row => if row.id = id then f row else row }

/-- The accounts with a live code. -/
def candidates : List ResetRow :=
  w.rows.filter fun row => row.code.isSome && decide (w.now < row.expiresAt) && !row.disabledAt

/-- A wrong guess against every code that is out. -/
def guessed (candidates : List ResetRow) : ResetWorld :=
  { w with guesses := fun code => w.guesses code + candidates.countP (·.code = some code) }

def mint (id code now : ℕ) : ResetWorld :=
  { w with issued := code :: w.issued }.update id fun row =>
    { row with code := some code, mintedAt := now, expiresAt := now + RESET_TTL_MS, failures := 0 }

/-- The failure of one account's code, by the row that was read. -/
def count (candidate : ResetRow) : ResetWorld :=
  let failures := candidate.failures + 1
  let counted := fun code => w.counted code + if candidate.code = some code then 1 else 0
  { w with counted := counted }.update candidate.id fun row =>
    if failures ≥ RESET_MAX_FAILURES then row.cleared else { row with failures := failures }

def setPassword (user : ResetRow) (code : ℕ) : ResetWorld :=
  let successes := w.successes ++ [(code, w.guesses code)]
  { w with successes := successes }.update user.id ResetRow.cleared

end ResetWorld

def ResetTask.resume (w : ResetWorld) : ResetTask → Unit → Option (ResetWorld × Option ResetTask)
  | .asking id code, _ =>
    match w.rows.find? (·.id = id) with
    | none => some (w, none)
    | some user =>
      if user.disabledAt || user.fresh w.now then some (w, none)
      else some (w, some (.minting id code w.now))
  | .minting id code now, _ =>
    if code ∈ w.issued then none else some (w.mint id code now, none)
  | .finding code, _ =>
    match w.candidates.find? (·.code = some code) with
    | some user => some (w, some (.setting user code))
    | none => some (w.guessed w.candidates, some (.counting w.candidates))
  | .setting user code, _ => some (w.setPassword user code, none)
  | .counting [], _ => some (w, none)
  | .counting (candidate :: rest), _ => some (w.count candidate, some (.counting rest))

/-- The clock goes on. -/
def resetSystem : TaskSystem ResetWorld ResetTask ResetRequest Unit ℕ where
  init
    | .ask id code => .asking id code
    | .attempt code => .finding code
  resume := ResetTask.resume
  world w ms := some { w with now := w.now + ms }

/-- **A code is used once, and only before its tenth wrong guess.** -/
structure CodesHold (w : ResetWorld) : Prop where
  once : (w.successes.map (·.1)).Nodup
  guessed : ∀ success ∈ w.successes, success.2 < RESET_MAX_FAILURES

/-- What an attempt writes, it writes over the row it has read: a failure over the number it was
counted from; the password over a row that has the code still, with every wrong guess made against
it written down. -/
def ResetTask.WritesAsRead (w : ResetWorld) : ResetTask → Unit → Prop
  | .setting user code, _ =>
    (∃ row ∈ w.rows, row.id = user.id ∧ row.code = some code) ∧ w.counted code = w.guesses code
  | .counting (candidate :: _), _ =>
    ∀ row ∈ w.rows, row.id = candidate.id →
      row.code = candidate.code ∧ row.failures = candidate.failures
  | _, _ => True

instance (w : ResetWorld) : ∀ task : ResetTask, ∀ answer,
    Decidable (ResetTask.WritesAsRead w task answer)
  | .setting user code, _ => inferInstanceAs (Decidable
      ((∃ row ∈ w.rows, row.id = user.id ∧ row.code = some code) ∧
        w.counted code = w.guesses code))
  | .counting (candidate :: _), _ => inferInstanceAs (Decidable
      (∀ row ∈ w.rows, row.id = candidate.id →
        row.code = candidate.code ∧ row.failures = candidate.failures))
  | .counting [], _ | .asking _ _, _ | .minting _ _ _, _ | .finding _, _ => .isTrue trivial

/-! ## What holds -/

/-- Of the table: an account has one row, and a code one account; and a code that is out has not
been used, and every failure of it that was written is counted. -/
structure ResetWorld.Sound (w : ResetWorld) : Prop where
  rows : ∀ row ∈ w.rows, ∀ other ∈ w.rows, row.id = other.id → row = other
  codes : ∀ row ∈ w.rows, ∀ other ∈ w.rows, ∀ code, row.code = some code →
    other.code = some code → row.id = other.id
  issued : ∀ row ∈ w.rows, ∀ code, row.code = some code → code ∈ w.issued
  live : ∀ row ∈ w.rows, ∀ code, row.code = some code →
    row.failures = w.counted code ∧ row.failures < RESET_MAX_FAILURES
  unused : ∀ row ∈ w.rows, ∀ code, row.code = some code → code ∉ w.successes.map (·.1)
  used : ∀ code ∈ w.successes.map (·.1), code ∈ w.issued
  unissued : ∀ code, code ∉ w.issued → w.counted code = 0
  hold : CodesHold w

/-- An attempt that has its failures to write knows whose the codes are that it read. -/
def ResetTask.Knows (w : ResetWorld) : ResetTask → Prop
  | .counting candidates => ∀ candidate ∈ candidates, ∃ code, candidate.code = some code ∧
      code ∈ w.issued ∧ ∀ row ∈ w.rows, row.code = some code → row.id = candidate.id
  | _ => True

section Steps

variable {w : ResetWorld}

theorem mem_update {id : ℕ} {f : ResetRow → ResetRow} {row : ResetRow}
    (h : row ∈ (w.update id f).rows) :
    (∃ was ∈ w.rows, was.id = id ∧ row = f was) ∨ (row ∈ w.rows ∧ row.id ≠ id) := by
  obtain ⟨was, mem, rfl⟩ := List.mem_map.mp h
  by_cases own : was.id = id
  · rw [if_pos own]
    exact .inl ⟨was, mem, own, rfl⟩
  · rw [if_neg own]
    exact .inr ⟨mem, own⟩

/-- An account has one row after an update as before. -/
theorem rows_update (rows : ∀ row ∈ w.rows, ∀ other ∈ w.rows, row.id = other.id → row = other)
    {id : ℕ} {f : ResetRow → ResetRow} (keeps : ∀ row, (f row).id = row.id) :
    ∀ row ∈ (w.update id f).rows, ∀ other ∈ (w.update id f).rows,
      row.id = other.id → row = other := by
  intro row mem other mem' same
  rcases mem_update mem with ⟨was, hw, own, rfl⟩ | ⟨hw, ne⟩ <;>
    rcases mem_update mem' with ⟨was', hw', own', rfl⟩ | ⟨hw', ne'⟩
  · rw [rows was hw was' hw' (own.trans own'.symm)]
  · exact absurd (same.symm.trans ((keeps was).trans own)) ne'
  · exact absurd (same.trans ((keeps was').trans own')) ne
  · exact rows row hw other hw' same

/-- A row that has a code after an update that sets none had it before. -/
theorem mem_update_code {id code : ℕ} {f : ResetRow → ResetRow} {row : ResetRow}
    (keeps : ∀ row, (f row).id = row.id)
    (none : ∀ row, (f row).code = none ∨ (f row).code = row.code)
    (h : row ∈ (w.update id f).rows) (has : row.code = some code) :
    ∃ was ∈ w.rows, was.id = row.id ∧ was.code = some code ∧
      (was.id = id ∧ row = f was ∨ was.id ≠ id ∧ row = was) := by
  rcases mem_update h with ⟨was, hw, own, rfl⟩ | ⟨hw, ne⟩
  · refine ⟨was, hw, (keeps was).symm, ?_, .inl ⟨own, rfl⟩⟩
    rcases none was with gone | same
    · rw [gone] at has
      cases has
    · exact same.symm.trans has
  · exact ⟨row, hw, rfl, has, .inr ⟨ne, rfl⟩⟩

theorem count_keeps (candidate : ResetRow) : ∀ row : ResetRow,
    (if candidate.failures + 1 ≥ RESET_MAX_FAILURES then row.cleared
      else { row with failures := candidate.failures + 1 }).id = row.id := by
  intro row
  split <;> rfl

theorem count_code (candidate : ResetRow) : ∀ row : ResetRow,
    (if candidate.failures + 1 ≥ RESET_MAX_FAILURES then row.cleared
      else { row with failures := candidate.failures + 1 }).code = none ∨
    (if candidate.failures + 1 ≥ RESET_MAX_FAILURES then row.cleared
      else { row with failures := candidate.failures + 1 }).code = row.code := by
  intro row
  split
  · exact .inl rfl
  · exact .inr rfl

/-- A failure that is written over the number it was counted from is counted. -/
theorem ResetWorld.Sound.count (sound : w.Sound) {candidate : ResetRow} {code : ℕ}
    (has : candidate.code = some code) (issued : code ∈ w.issued)
    (whose : ∀ row ∈ w.rows, row.code = some code → row.id = candidate.id)
    (asRead : ∀ row ∈ w.rows, row.id = candidate.id →
      row.code = candidate.code ∧ row.failures = candidate.failures) :
    (w.count candidate).Sound where
  rows := rows_update (w := { w with counted := _ }) sound.rows (count_keeps candidate)
  codes := by
    intro row mem other mem' code hc hc'
    obtain ⟨was, hw, id, has, -⟩ :=
      mem_update_code (count_keeps candidate) (count_code candidate) mem hc
    obtain ⟨was', hw', id', has', -⟩ :=
      mem_update_code (count_keeps candidate) (count_code candidate) mem' hc'
    rw [← id, ← id']
    exact sound.codes was hw was' hw' code has has'
  issued := by
    intro row mem code hc
    obtain ⟨was, hw, -, has, -⟩ :=
      mem_update_code (count_keeps candidate) (count_code candidate) mem hc
    exact sound.issued was hw code has
  live := by
    intro row mem k hc
    obtain ⟨was, hw, -, hasK, own | ⟨other, rfl⟩⟩ :=
      mem_update_code (count_keeps candidate) (count_code candidate) mem hc
    · obtain ⟨own, rfl⟩ := own
      obtain ⟨sameCode, sameFailures⟩ := asRead was hw own
      obtain ⟨live, _⟩ := sound.live was hw k hasK
      have counts : (w.count candidate).counted k = w.counted k + 1 := by
        simp [ResetWorld.count, ResetWorld.update, ← sameCode, hasK]
      split at hc
      · cases hc
      · next few =>
        rw [if_neg few, counts, ← live, sameFailures]
        refine ⟨rfl, ?_⟩
        show candidate.failures + 1 < RESET_MAX_FAILURES
        omega
    · have another : candidate.code ≠ some k := by
        intro same
        obtain rfl := Option.some.inj (has.symm.trans same)
        exact other (whose row hw hasK)
      have counts : (w.count candidate).counted k = w.counted k := by
        simp [ResetWorld.count, ResetWorld.update, another]
      rw [counts]
      exact sound.live row hw k hasK
  unused := by
    intro row mem code hc
    obtain ⟨was, hw, -, has, -⟩ :=
      mem_update_code (count_keeps candidate) (count_code candidate) mem hc
    exact sound.unused was hw code has
  used := sound.used
  unissued := by
    intro k fresh
    have another : candidate.code ≠ some k := by
      intro same
      obtain rfl := Option.some.inj (has.symm.trans same)
      exact fresh issued
    simpa [ResetWorld.count, ResetWorld.update, another] using sound.unissued k fresh
  hold := ⟨sound.hold.once, sound.hold.guessed⟩

/-- A password that is set while the code is out, with every guess counted. -/
theorem ResetWorld.Sound.setPassword (sound : w.Sound) {user row : ResetRow} {code : ℕ}
    (mem : row ∈ w.rows) (own : row.id = user.id) (has : row.code = some code)
    (counted : w.counted code = w.guesses code) : (w.setPassword user code).Sound := by
  obtain ⟨live, few⟩ := sound.live row mem code has
  have unused := sound.unused row mem code has
  have keeps : ∀ row : ResetRow, row.cleared.id = row.id := fun _ => rfl
  have none : ∀ row : ResetRow, row.cleared.code = none ∨ row.cleared.code = row.code :=
    fun _ => .inl rfl
  refine ⟨rows_update (w := { w with successes := _ }) sound.rows keeps, ?_, ?_, ?_, ?_, ?_,
    sound.unissued, ?_, ?_⟩
  · intro one mem one' mem' k hc hc'
    obtain ⟨was, hw, id, has, -⟩ := mem_update_code keeps none mem hc
    obtain ⟨was', hw', id', has', -⟩ := mem_update_code keeps none mem' hc'
    rw [← id, ← id']
    exact sound.codes was hw was' hw' k has has'
  · intro one mem k hc
    obtain ⟨was, hw, -, has, -⟩ := mem_update_code keeps none mem hc
    exact sound.issued was hw k has
  · intro one mem k hc
    obtain ⟨was, hw, -, has, ⟨_, rfl⟩ | ⟨_, rfl⟩⟩ := mem_update_code keeps none mem hc
    · cases hc
    · exact sound.live one hw k has
  · intro one mem' k hc
    obtain ⟨was, hw, -, hasK, ⟨_, rfl⟩ | ⟨other, rfl⟩⟩ := mem_update_code keeps none mem' hc
    · cases hc
    · show k ∉ (w.successes ++ [(code, w.guesses code)]).map (·.1)
      rw [List.map_append, List.mem_append, not_or]
      refine ⟨sound.unused one hw k hasK, ?_⟩
      simp only [List.map_cons, List.map_nil, List.mem_singleton]
      rintro rfl
      exact other ((sound.codes one hw row mem k hasK has).trans own)
  · intro k used
    rcases List.mem_append.mp (List.map_append ▸ used) with used | used
    · exact sound.used k used
    · obtain rfl : k = code := by simpa using used
      exact sound.issued row mem k has
  · show ((w.successes ++ [(code, w.guesses code)]).map (·.1)).Nodup
    rw [List.map_append]
    refine List.nodup_append.mpr ⟨sound.hold.once, by simp, ?_⟩
    rintro k used k' new rfl
    obtain rfl : k = code := by simpa using new
    exact unused used
  · intro success mem
    rcases List.mem_append.mp mem with mem | mem
    · exact sound.hold.guessed success mem
    · obtain rfl := List.mem_singleton.mp mem
      show w.guesses code < RESET_MAX_FAILURES
      omega

/-- A new code, which was none of those that were made. -/
theorem ResetWorld.Sound.mint (sound : w.Sound) {id code now : ℕ} (fresh : code ∉ w.issued) :
    (w.mint id code now).Sound := by
  -- a code is the new one, in the row that got it, or one that was there
  have told : ∀ row ∈ (w.mint id code now).rows, ∀ k, row.code = some k →
      (row.id = id ∧ k = code ∧ row.failures = 0) ∨ (row ∈ w.rows ∧ row.id ≠ id) := by
    intro row mem k hc
    rcases mem_update mem with ⟨was, hw, own, rfl⟩ | ⟨hw, ne⟩
    · exact .inl ⟨own, (Option.some.inj hc).symm, rfl⟩
    · exact .inr ⟨hw, ne⟩
  have old : ∀ row ∈ w.rows, ∀ k, row.code = some k → k ≠ code := by
    rintro row hw k hc rfl
    exact fresh (sound.issued row hw k hc)
  refine ⟨rows_update (w := { w with issued := _ }) sound.rows fun _ => rfl, ?_, ?_, ?_, ?_, ?_, ?_,
    ⟨sound.hold.once, sound.hold.guessed⟩⟩
  · intro row mem other mem' k hc hc'
    rcases told row mem k hc with ⟨own, rfl, _⟩ | ⟨hw, _⟩ <;>
      rcases told other mem' k hc' with ⟨own', same, _⟩ | ⟨hw', _⟩
    · exact own.trans own'.symm
    · exact absurd rfl (old other hw' k hc')
    · exact absurd same (old row hw k hc)
    · exact sound.codes row hw other hw' k hc hc'
  · intro row mem k hc
    rcases told row mem k hc with ⟨_, rfl, _⟩ | ⟨hw, _⟩
    · exact List.mem_cons_self
    · exact List.mem_cons_of_mem _ (sound.issued row hw k hc)
  · intro row mem k hc
    rcases told row mem k hc with ⟨_, rfl, zero⟩ | ⟨hw, _⟩
    · have none := sound.unissued k fresh
      show row.failures = w.counted k ∧ _
      rw [zero, none]
      exact ⟨rfl, by decide⟩
    · exact sound.live row hw k hc
  · intro row mem k hc
    rcases told row mem k hc with ⟨_, rfl, _⟩ | ⟨hw, _⟩
    · exact fun used => fresh (sound.used k used)
    · exact sound.unused row hw k hc
  · exact fun k used => List.mem_cons_of_mem _ (sound.used k used)
  · exact fun k new => sound.unissued k fun was => new (List.mem_cons_of_mem _ was)

theorem ResetWorld.Sound.guessed (sound : w.Sound) (candidates : List ResetRow) :
    (w.guessed candidates).Sound :=
  ⟨sound.rows, sound.codes, sound.issued, sound.live, sound.unused, sound.used, sound.unissued,
    ⟨sound.hold.once, sound.hold.guessed⟩⟩

end Steps

/-! ## What a waiting attempt goes by -/

section Relies

variable {w w' : ResetWorld}

/-- No step gives a code that was made to an account it was not made for. -/
theorem ResetTask.Knows.mono {task : ResetTask} (knows : task.Knows w)
    (issued : ∀ code ∈ w.issued, code ∈ w'.issued)
    (codes : ∀ row ∈ w'.rows, ∀ code ∈ w.issued, row.code = some code →
      ∃ was ∈ w.rows, was.id = row.id ∧ was.code = some code) : task.Knows w' := by
  cases task with
  | counting candidates =>
    intro candidate mem
    obtain ⟨code, has, made, whose⟩ := knows candidate mem
    refine ⟨code, has, issued code made, fun row hr hc => ?_⟩
    obtain ⟨was, hw, id, hc⟩ := codes row hr code made hc
    exact id ▸ whose was hw hc
  | _ => trivial

theorem ResetTask.knows_resume {task other : ResetTask} {next : Option ResetTask}
    (resumed : task.resume w () = some (w', next)) (knows : other.Knows w) : other.Knows w' := by
  unfold ResetTask.resume at resumed
  split at resumed
  · split at resumed
    · obtain ⟨rfl, rfl⟩ := Prod.mk.inj (Option.some.inj resumed)
      exact knows
    · split at resumed <;> obtain ⟨rfl, rfl⟩ := Prod.mk.inj (Option.some.inj resumed)
      · exact knows
      · exact knows
  · next id code now =>
    split at resumed
    · cases resumed
    · next fresh =>
      obtain ⟨rfl, rfl⟩ := Prod.mk.inj (Option.some.inj resumed)
      refine knows.mono (fun k made => List.mem_cons_of_mem _ made) fun row mem k made hc => ?_
      rcases mem_update mem with ⟨was, hw, own, rfl⟩ | ⟨hw, ne⟩
      · obtain rfl := Option.some.inj hc
        exact absurd made fresh
      · exact ⟨row, hw, rfl, hc⟩
  · split at resumed <;> obtain ⟨rfl, rfl⟩ := Prod.mk.inj (Option.some.inj resumed)
    · exact knows
    · exact knows.mono (fun _ made => made) fun row mem k _ hc => ⟨row, mem, rfl, hc⟩
  · obtain ⟨rfl, rfl⟩ := Prod.mk.inj (Option.some.inj resumed)
    refine knows.mono (fun _ made => made) fun row mem k _ hc => ?_
    obtain ⟨was, hw, id, has, -⟩ :=
      mem_update_code (f := ResetRow.cleared) (fun _ => rfl) (fun _ => .inl rfl) mem hc
    exact ⟨was, hw, id, has⟩
  · obtain ⟨rfl, rfl⟩ := Prod.mk.inj (Option.some.inj resumed)
    exact knows
  · next candidate rest =>
    obtain ⟨rfl, rfl⟩ := Prod.mk.inj (Option.some.inj resumed)
    refine knows.mono (fun _ made => made) fun row mem k _ hc => ?_
    obtain ⟨was, hw, id, has, -⟩ :=
      mem_update_code (count_keeps candidate) (count_code candidate) mem hc
    exact ⟨was, hw, id, has⟩

end Relies

theorem resetSystem_keeps :
    resetSystem.Keeps (onGo ResetTask.WritesAsRead) ResetWorld.Sound fun w task => task.Knows w where
  begins := by
    intro w t request _ _
    cases request with
    | ask id code => trivial
    | attempt code => trivial
  goes := by
    intro w t answer task s next asRead holds running resumed
    have sound := holds.shared
    have knows := holds.tasks t task running
    have allowed := asRead task running
    have onward : ∀ other : ResetTask, other.Knows w.shared → other.Knows s :=
      fun _ => ResetTask.knows_resume resumed
    unfold resetSystem ResetTask.resume at resumed
    dsimp only at resumed
    split at resumed
    · split at resumed
      · obtain ⟨rfl, rfl⟩ := Prod.mk.inj (Option.some.inj resumed)
        exact ⟨sound, nofun⟩
      · split at resumed <;> obtain ⟨rfl, rfl⟩ := Prod.mk.inj (Option.some.inj resumed)
        · exact ⟨sound, nofun⟩
        · refine ⟨sound, fun n comesTo => ?_⟩
          obtain rfl := Option.some.inj comesTo
          trivial
    · split at resumed
      · cases resumed
      · next fresh =>
        obtain ⟨rfl, rfl⟩ := Prod.mk.inj (Option.some.inj resumed)
        exact ⟨sound.mint fresh, nofun⟩
    · split at resumed <;> obtain ⟨rfl, rfl⟩ := Prod.mk.inj (Option.some.inj resumed)
      · refine ⟨sound, fun n comesTo => ?_⟩
        obtain rfl := Option.some.inj comesTo
        trivial
      · refine ⟨sound.guessed _, fun n comesTo => ?_⟩
        obtain rfl := Option.some.inj comesTo
        intro candidate mem
        obtain ⟨mem, live⟩ := List.mem_filter.mp mem
        obtain ⟨code, has⟩ : ∃ code, candidate.code = some code := by
          simp only [Bool.and_eq_true] at live
          exact Option.isSome_iff_exists.mp live.1.1
        exact ⟨code, has, sound.issued candidate mem code has,
          fun row hr hc => sound.codes row hr candidate mem code hc has⟩
    · obtain ⟨rfl, rfl⟩ := Prod.mk.inj (Option.some.inj resumed)
      obtain ⟨⟨row, mem, own, has⟩, counted⟩ := allowed
      exact ⟨sound.setPassword mem own has counted, nofun⟩
    · obtain ⟨rfl, rfl⟩ := Prod.mk.inj (Option.some.inj resumed)
      exact ⟨sound, nofun⟩
    · next candidate rest =>
      obtain ⟨rfl, rfl⟩ := Prod.mk.inj (Option.some.inj resumed)
      obtain ⟨code, has, issued, whose⟩ := knows candidate List.mem_cons_self
      refine ⟨sound.count has issued whose allowed, fun n comesTo => ?_⟩
      obtain rfl := Option.some.inj comesTo
      exact onward _ fun other mem => knows other (List.mem_cons_of_mem _ mem)
  stays _ holds _ resumed _ hu := ResetTask.knows_resume resumed (holds.tasks _ _ hu)
  world := by
    intro w ms s _ holds moved
    obtain rfl := Option.some.inj moved
    have sound := holds.shared
    exact ⟨⟨sound.rows, sound.codes, sound.issued, sound.live, sound.unused, sound.used,
      sound.unissued, ⟨sound.hold.once, sound.hold.guessed⟩⟩, fun t task running =>
        (holds.tasks t task running).mono (fun _ made => made) fun row mem _ _ hc =>
          ⟨row, mem, rfl, hc⟩⟩

/-- No code is out yet, and every account has one row. -/
structure Codeless (rows : List ResetRow) : Prop where
  oneRow : ∀ row ∈ rows, ∀ other ∈ rows, row.id = other.id → row = other
  noCode : ∀ row ∈ rows, row.code = none

theorem Codeless.sound {rows : List ResetRow} (start : Codeless rows) :
    ResetWorld.Sound { rows := rows } := by
  have absurd_ : ∀ {p : Prop}, ∀ row ∈ rows, ∀ code, row.code = some code → p := by
    intro p row mem code has
    rw [start.noCode row mem] at has
    cases has
  exact ⟨start.oneRow, fun row mem _ _ code has _ => absurd_ row mem code has,
    fun row mem code has => absurd_ row mem code has,
    fun row mem code has => absurd_ row mem code has,
    fun row mem code has => absurd_ row mem code has, by simp, fun _ _ => rfl,
    ⟨by simp, by simp⟩⟩

/-- **A code is used once, and only before its tenth wrong guess, as long as what an attempt
writes, it writes over the row it has read.** -/
theorem codesHold_of_writesAsRead {rows : List ResetRow}
    {es : List (TaskEvent ResetRequest Unit ℕ)} {w : Tasks ResetWorld ResetTask}
    (start : Codeless rows)
    (run : Run resetSystem.step (onGo ResetTask.WritesAsRead) (Tasks.idle { rows := rows }) es w) :
    CodesHold w.shared :=
  (resetSystem_keeps.run run (.idle start.sound)).shared.hold

/-! ## Attempts at once -/

/-- One account. -/
def oneAccount : List ResetRow :=
  [{ id := 1, disabledAt := false, code := none, mintedAt := 0, expiresAt := 0, failures := 0 }]

/-- Two attempts with the right code at once: each sets the password. And ten wrong guesses at once:
each writes the first failure, and the right code is good still. -/
theorem attempts_at_once :
    Codeless oneAccount ∧
      (∃ w, Run resetSystem.step anyStep (Tasks.idle { rows := oneAccount })
          ([.begin 0 (.ask 1 7), .go 0 (), .go 0 (), .begin 1 (.attempt 7), .begin 2 (.attempt 7),
            .go 1 (), .go 2 (), .go 1 (), .go 2 ()]) w ∧
        ¬ (w.shared.successes.map (·.1)).Nodup) ∧
      ∃ w, Run resetSystem.step anyStep (Tasks.idle { rows := oneAccount })
          ([.begin 0 (.ask 1 7), .go 0 (), .go 0 ()] ++
            (List.range 10).map (fun n => .begin n (.attempt 8)) ++
            (List.range 10).map (fun n => .go n ()) ++ (List.range 10).map (fun n => .go n ()) ++
            [.begin 10 (.attempt 7), .go 10 (), .go 10 ()]) w ∧
        ¬ ∀ success ∈ w.shared.successes, success.2 < RESET_MAX_FAILURES := by
  refine ⟨⟨by decide, by decide⟩, ⟨_, run_of_eval rfl, by decide⟩, ⟨_, run_of_eval rfl, by decide⟩⟩

/-- One code, one wrong guess, and the right one after it. -/
theorem one_after_another :
    Codeless oneAccount ∧
      ∃ w, Run resetSystem.step (onGo ResetTask.WritesAsRead) (Tasks.idle { rows := oneAccount })
          [.begin 0 (.ask 1 7), .go 0 (), .go 0 (), .begin 1 (.attempt 8), .go 1 (), .go 1 (),
            .begin 2 (.attempt 7), .go 2 (), .go 2 ()] w ∧
        CodesHold w.shared := by
  have start : Codeless oneAccount := ⟨by decide, by decide⟩
  have run : ∃ w, Run resetSystem.step (onGo ResetTask.WritesAsRead) (Tasks.idle { rows := oneAccount })
      [.begin 0 (.ask 1 7), .go 0 (), .go 0 (), .begin 1 (.attempt 8), .go 1 (), .go 1 (),
        .begin 2 (.attempt 7), .go 2 (), .go 2 ()] w := ⟨_, run_iff_runEvents.mpr rfl⟩
  obtain ⟨w, run⟩ := run
  exact ⟨start, w, run, codesHold_of_writesAsRead start run⟩

end Syncle.Accounts
