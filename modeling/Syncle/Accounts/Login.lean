import Syncle.Accounts.AttemptLimiter
import Syncle.Lib.Tasks

/-!
# Signing in (`AuthService.login`)

An attempt is let in by two limiters, one by address and name and one by name alone: "this one
cannot be dodged". It then looks the account up and verifies the password, two awaits, and only then
a wrong password is counted. In between the name may have been locked by others, who were let in by
the same look at the table; and the table, which is bounded, may have forgotten it. A right password
clears the slate of its name.

So what is bounded are the stretches of a name's history between two right passwords. Each wrong one
came when the name was not locked: `assertNotLocked` let it in, and no lock was set since
(`LoginTask.InTurn`).

Names are told apart as the limiter tells them: `fold` is `trim().toLowerCase()`.
-/

namespace Syncle.Accounts

open Lib

def loginLimiter : AttemptLimiter := {}

def usernameLimiter : AttemptLimiter :=
  { maxFailures := 10, baseLockMs := 5000, maxLockMs := 60000 }

/-- `${ip}:${username}` -/
def addressKey (ip username : String) : String := ip ++ ":" ++ username

/-- `user:${username.trim().toLowerCase()}` -/
def nameKey (fold : String → String) (username : String) : String := "user:" ++ fold username

/-- A password that was verified: of an account, the right one or not. -/
structure Verification where
  ip : String
  username : String
  at_ : ℕ
  right : Bool
  deriving DecidableEq

/-- An attempt that was not let in, and whether its name had been guessed wrongly by then. -/
structure Refusal where
  username : String
  guessed : Bool
  deriving DecidableEq

/-- The clock and the limiters' tables; and what no code reads: the passwords that were verified,
and the attempts that were refused. -/
structure LoginWorld where
  now : ℕ := 0
  login : AttemptTable := .empty
  names : AttemptTable := .empty
  history : List Verification := []
  refusals : List Refusal := []

structure LoginRequest where
  ip : String
  username : String
  deriving DecidableEq

/-- Where an attempt stands. `lock` is until when its name was locked as it was let in; no code
reads it. -/
inductive LoginTask where
  | checking (request : LoginRequest)
  | finding (request : LoginRequest) (lock : ℕ)
  /-- the account, and whether it is disabled; none has the name: a decoy hash is verified -/
  | verifying (request : LoginRequest) (user : Option Bool) (lock : ℕ)
  deriving DecidableEq

inductive LoginAnswer where
  | called
  | found (user : Option Bool)
  | verified (ok : Bool)
  deriving DecidableEq

namespace LoginWorld

variable (fold : String → String) (w : LoginWorld)

/-- `assertNotLocked`, of both limiters. -/
def isLocked (request : LoginRequest) : Bool :=
  decide (0 < retryAfterMs w.login (addressKey request.ip request.username) w.now) ||
    decide (0 < retryAfterMs w.names (nameKey fold request.username) w.now)

/-- Has anybody guessed the name wrongly? -/
def wasGuessed (username : String) : Bool :=
  w.history.any fun v => !v.right && nameKey fold v.username == nameKey fold username

def refuse (request : LoginRequest) : LoginWorld :=
  let refusal : Refusal :=
    { username := request.username, guessed := w.wasGuessed fold request.username }
  { w with refusals := w.refusals ++ [refusal] }

def verify (request : LoginRequest) (right : Bool) : LoginWorld :=
  let verification : Verification :=
    { ip := request.ip, username := request.username, at_ := w.now, right := right }
  { w with history := w.history ++ [verification] }

def fail (request : LoginRequest) : LoginWorld :=
  { w with
    login := loginLimiter.fail w.login (addressKey request.ip request.username) w.now
    names := usernameLimiter.fail w.names (nameKey fold request.username) w.now }

def succeed (request : LoginRequest) : LoginWorld :=
  { w with
    login := Accounts.succeed w.login (addressKey request.ip request.username)
    names := Accounts.succeed w.names (nameKey fold request.username) }

/-- Until when the name is locked, or was. -/
def nameLock (request : LoginRequest) : ℕ :=
  ((w.names.get? (nameKey fold request.username)).map (·.lockedUntil)).getD 0

/-- What was verified for a name, in order. -/
def named (key : String) : List Verification :=
  w.history.filter fun v => nameKey fold v.username = key

/-- …from one time to another. -/
def window (key : String) (first last : ℕ) : List Verification :=
  (w.named fold key).filter fun v => decide (first ≤ v.at_) && decide (v.at_ ≤ last)

end LoginWorld

section

variable (fold : String → String)

def LoginTask.resume (w : LoginWorld) :
    LoginTask → LoginAnswer → Option (LoginWorld × Option LoginTask)
  | .checking request, .called =>
    if w.isLocked fold request then some (w.refuse fold request, none)
    else some (w, some (.finding request (w.nameLock fold request)))
  | .finding request lock, .found user => some (w, some (.verifying request user lock))
  | .verifying request user _, .verified ok =>
    let right := user.isSome && ok
    let w := w.verify request right
    if !right then some (w.fail fold request, none)
    -- (said only once the password was right)
    else if user = some true then some (w, none)
    else some (w.succeed fold request, none)
  | _, _ => none

def loginSystem : TaskSystem LoginWorld LoginTask LoginRequest LoginAnswer ℕ where
  init := .checking
  resume := LoginTask.resume fold
  world w ms := some { w with now := w.now + ms }

/-- **Guessing is bounded.** In any window of time in which nobody gave a name's right password, the
passwords verified for it are ten at most, and one more for each lock that fits in; each right
password gives the ten back. And no attempt is refused of a name that nobody guessed wrongly. -/
structure GuessingBounded (w : LoginWorld) : Prop where
  refilled : ∀ key first len, (∀ v ∈ w.window fold key first (first + len), v.right = false) →
    usernameLimiter.refill
      ((w.window fold key first (first + len)).length - usernameLimiter.maxFailures) ≤ len
  allowed : ∀ key first len,
    let right := (w.window fold key first (first + len)).countP (·.right)
    (w.window fold key first (first + len)).length ≤
      (right + 1) * (usernameLimiter.maxFailures + len / usernameLimiter.baseLockMs) + right
  fair : ∀ refusal ∈ w.refusals, refusal.guessed = true

/-- An attempt that is let in has no address and name that read as those of a guess at another name.
When a wrong password is counted, no lock has been set on its name since it was let in, and the
limiter has room to remember it. -/
def LoginTask.InTurn (w : LoginWorld) : LoginTask → LoginAnswer → Prop
  | .checking request, _ => ∀ v ∈ w.history, v.right = false →
    addressKey v.ip v.username = addressKey request.ip request.username →
    nameKey fold v.username = nameKey fold request.username
  | .verifying request user lock, .verified ok => (user.isSome && ok) = false →
    w.nameLock fold request ≤ lock ∧
      usernameLimiter.hasRoom w.names (nameKey fold request.username) = true
  | _, _ => True

instance (w : LoginWorld) : ∀ task answer, Decidable (LoginTask.InTurn fold w task answer)
  | .checking request, _ => inferInstanceAs (Decidable (∀ v ∈ w.history, v.right = false →
      addressKey v.ip v.username = addressKey request.ip request.username →
      nameKey fold v.username = nameKey fold request.username))
  | .verifying request user lock, .verified ok => inferInstanceAs (Decidable
      ((user.isSome && ok) = false →
        w.nameLock fold request ≤ lock ∧
          usernameLimiter.hasRoom w.names (nameKey fold request.username) = true))
  | .finding _ _, _ | .verifying _ _ _, .called | .verifying _ _ _, .found _ => .isTrue trivial

end

/-! ## Stretches of a list

What lies between two times, in a list in order of time, is a stretch of it; and a list is as long
as the stretches between some of its entries let it be. -/

section Stretches

variable {α : Type*} {l : List α} {time : α → ℕ}

/-- What comes before a time comes first. -/
theorem filter_le_front (last : ℕ) (sorted : l.Pairwise fun a b => time a ≤ time b) :
    l.filter (fun a => decide (time a ≤ last)) <+: l := by
  induction l with
  | nil => exact List.prefix_rfl
  | cons a l ih =>
    obtain ⟨later, sorted⟩ := List.pairwise_cons.mp sorted
    by_cases early : time a ≤ last
    · rw [List.filter_cons_of_pos (by simpa using early)]
      exact List.cons_prefix_cons.mpr ⟨rfl, ih sorted⟩
    · rw [List.filter_eq_nil_iff.mpr]
      · exact List.nil_prefix
      · intro b mem
        have : time a ≤ time b := by
          rcases List.mem_cons.mp mem with rfl | mem
          · exact Nat.le_refl _
          · exact later b mem
        simp only [decide_eq_true_eq]
        omega

theorem filter_between_inside (first last : ℕ) (sorted : l.Pairwise fun a b => time a ≤ time b) :
    l.filter (fun a => decide (first ≤ time a) && decide (time a ≤ last)) <:+: l := by
  induction l with
  | nil => exact List.infix_rfl
  | cons a l ih =>
    obtain ⟨later, rest⟩ := List.pairwise_cons.mp sorted
    by_cases begun : first ≤ time a
    · have same : (a :: l).filter (fun a => decide (first ≤ time a) && decide (time a ≤ last)) =
          (a :: l).filter fun a => decide (time a ≤ last) := by
        refine List.filter_congr fun b mem => ?_
        have : first ≤ time b := by
          rcases List.mem_cons.mp mem with rfl | mem
          · exact begun
          · exact begun.trans (later b mem)
        simp [this]
      rw [same]
      exact (filter_le_front last sorted).isInfix
    · rw [List.filter_cons_of_neg (by simp [begun])]
      exact List.infix_cons (ih rest)

/-- A list is no longer than its stretches between some entries, and those entries. -/
theorem length_le_of_stretches {p : α → Bool} {most : ℕ}
    (short : ∀ s, s <:+: l → (∀ a ∈ s, p a = false) → s.length ≤ most) :
    l.length ≤ (l.countP p + 1) * most + l.countP p := by
  induction h : l.countP p generalizing l with
  | zero =>
    have none : ∀ a ∈ l, p a = false := by
      intro a mem
      have := List.countP_eq_zero.mp h a mem
      simpa using this
    have := short l List.infix_rfl none
    omega
  | succ n ih =>
    have some : ∃ a, l.find? p = some a := by
      rw [← Option.isSome_iff_exists, List.find?_isSome, ← List.countP_pos_iff, h]
      exact Nat.succ_pos n
    obtain ⟨a, found⟩ := some
    obtain ⟨here, before, after, rfl, clear⟩ := List.find?_eq_some_iff_append.mp found
    have clear : ∀ b ∈ before, p b = false := fun b mem => by simpa using clear b mem
    have rest : after.countP p = n := by
      rw [List.countP_append, List.countP_cons_of_pos here,
        List.countP_eq_zero.mpr fun b mem => by simp [clear b mem]] at h
      omega
    have last := ih (fun s within => short s (within.trans ⟨before ++ [a], [], by simp⟩)) rest
    have first := short before (List.prefix_append _ _).isInfix clear
    rw [List.length_append, List.length_cons, Nat.succ_mul (n + 1)]
    omega

end Stretches

/-! ## What the tables remember -/

section Sound

variable {fold : String → String} {w : LoginWorld} {request : LoginRequest}

/-- What the tables hold of the history. The wrong passwords for a name since its last right one are
no more than are counted; a lock counts from every one of them; and in a stretch of them, from the
tenth on, each came a lock after the one before. -/
structure LoginWorld.Sound (fold : String → String) (w : LoginWorld) : Prop where
  past : ∀ v ∈ w.history, v.at_ ≤ w.now
  sorted : w.history.Pairwise fun v v' => v.at_ ≤ v'.at_
  counted : ∀ key s, s <:+ w.named fold key → (∀ v ∈ s, v.right = false) →
    s.length ≤ failuresOf w.names key
  locked : ∀ key e, w.names.get? key = some e → usernameLimiter.maxFailures ≤ e.failures →
    ∀ v ∈ w.history, v.right = false → nameKey fold v.username = key →
      v.at_ + usernameLimiter.lock (e.failures - usernameLimiter.maxFailures) ≤ e.lockedUntil
  spaced : ∀ key s, s <:+: w.named fold key → (∀ v ∈ s, v.right = false) → s ≠ [] →
    ∀ first, (∀ v ∈ s, first ≤ v.at_) →
      ∃ v ∈ s, first + usernameLimiter.refill (s.length - usernameLimiter.maxFailures) ≤ v.at_
  login : ∀ key e, w.login.get? key = some e →
    ∃ v ∈ w.history, v.right = false ∧ addressKey v.ip v.username = key
  names : ∀ key e, w.names.get? key = some e →
    ∃ v ∈ w.history, v.right = false ∧ nameKey fold v.username = key
  fair : ∀ refusal ∈ w.refusals, refusal.guessed = true

/-- What a waiting attempt goes by: its name was not locked as it was let in. -/
def LoginTask.Free (w : LoginWorld) : LoginTask → Prop
  | .checking _ => True
  | .finding _ lock | .verifying _ _ lock => lock ≤ w.now

theorem LoginWorld.mem_named {key : String} {v : Verification} :
    v ∈ w.named fold key ↔ v ∈ w.history ∧ nameKey fold v.username = key := by
  simp [LoginWorld.named]

/-- A stretch of wrong passwords within a time, and the locks that fit into it. -/
theorem LoginWorld.Sound.stretch (sound : w.Sound fold) {key : String} {first len : ℕ}
    {s : List Verification} (within : s <:+: w.window fold key first (first + len))
    (wrong : ∀ v ∈ s, v.right = false) :
    usernameLimiter.refill (s.length - usernameLimiter.maxFailures) ≤ len := by
  have inside : ∀ v ∈ s, first ≤ v.at_ ∧ v.at_ ≤ first + len := by
    intro v mem
    have := (List.mem_filter.mp (within.subset mem)).2
    simpa using this
  by_cases none : s = []
  · rw [none]
    exact Nat.zero_le _
  · have whole : s <:+: w.named fold key :=
      within.trans (filter_between_inside first (first + len) (sound.sorted.filter _))
    obtain ⟨v, mem, spaced⟩ := sound.spaced key s whole wrong none first fun v mem => (inside v mem).1
    have := (inside v mem).2
    omega

theorem LoginWorld.Sound.bounded (sound : w.Sound fold) : GuessingBounded fold w where
  refilled _ _ _ wrong := sound.stretch List.infix_rfl wrong
  allowed _ _ _ := length_le_of_stretches fun _ within wrong =>
    AttemptLimiter.le_allowance (by decide) (by decide) (sound.stretch within wrong)
  fair := sound.fair

/-! ### A password is verified -/

/-- A verification is written down last, under its name. -/
theorem named_verify (right : Bool) (key : String) :
    (w.verify request right).named fold key =
      w.named fold key ++
        if nameKey fold request.username = key then
          [{ ip := request.ip, username := request.username, at_ := w.now, right := right }]
        else [] := by
  unfold LoginWorld.named LoginWorld.verify
  dsimp only
  rw [List.filter_append, List.filter_singleton]
  congr 1
  simp only [cond_eq_ite, decide_eq_true_eq]

theorem sorted_verify (sound : w.Sound fold) (right : Bool) :
    (w.verify request right).history.Pairwise fun v v' => v.at_ ≤ v'.at_ := by
  refine List.pairwise_append.mpr ⟨sound.sorted, List.pairwise_singleton _ _, ?_⟩
  intro v mem v' here
  obtain rfl := List.mem_singleton.mp here
  exact sound.past v mem

theorem past_verify (sound : w.Sound fold) (right : Bool) :
    ∀ v ∈ (w.verify request right).history, v.at_ ≤ w.now := by
  intro v mem
  rcases List.mem_append.mp mem with mem | mem
  · exact sound.past v mem
  · obtain rfl := List.mem_singleton.mp mem
    exact Nat.le_refl _

/-- A stretch of wrong passwords does not reach a right one: since that there are none, and those
before it are as they were. -/
theorem suffix_verify_right {key : String} {s : List Verification}
    (within : s <:+ (w.verify request true).named fold key) (wrong : ∀ v ∈ s, v.right = false) :
    s = [] ∨ nameKey fold request.username ≠ key ∧ s <:+ w.named fold key := by
  rw [named_verify] at within
  split at within
  · rcases List.suffix_concat_iff.mp within with none | ⟨t, rfl, _⟩
    · exact .inl none
    · cases wrong _ (List.mem_append_right _ List.mem_cons_self)
  · next other =>
    rw [List.append_nil] at within
    exact .inr ⟨other, within⟩

theorem infix_verify_right {key : String} {s : List Verification}
    (within : s <:+: (w.verify request true).named fold key) (wrong : ∀ v ∈ s, v.right = false) :
    s <:+: w.named fold key := by
  rw [named_verify] at within
  split at within
  · rcases List.infix_concat_iff.mp within with ending | before
    · rcases List.suffix_concat_iff.mp ending with rfl | ⟨t, rfl, _⟩
      · exact List.nil_infix
      · cases wrong _ (List.mem_append_right _ List.mem_cons_self)
    · exact before
  · rwa [List.append_nil] at within

theorem LoginWorld.Sound.verify_right (sound : w.Sound fold) :
    (w.verify request true).Sound fold where
  past := past_verify sound true
  sorted := sorted_verify sound true
  counted key s within wrong := by
    rcases suffix_verify_right within wrong with rfl | ⟨_, before⟩
    · exact Nat.zero_le _
    · exact sound.counted key s before wrong
  locked key e has many v mem wrong name := by
    rcases List.mem_append.mp mem with mem | mem
    · exact sound.locked key e has many v mem wrong name
    · obtain rfl := List.mem_singleton.mp mem
      cases wrong
  spaced key s within wrong := sound.spaced key s (infix_verify_right within wrong) wrong
  login key e has := by
    obtain ⟨v, mem, of⟩ := sound.login key e has
    exact ⟨v, List.mem_append_left _ mem, of⟩
  names key e has := by
    obtain ⟨v, mem, of⟩ := sound.names key e has
    exact ⟨v, List.mem_append_left _ mem, of⟩
  fair := sound.fair

/-- A right password clears the slate. -/
theorem LoginWorld.Sound.succeed (sound : w.Sound fold) :
    ((w.verify request true).succeed fold request).Sound fold := by
  have verified : (w.verify request true).Sound fold := sound.verify_right
  refine ⟨verified.past, verified.sorted, ?_, ?_, verified.spaced, ?_, ?_, sound.fair⟩
  · intro key s within wrong
    show s.length ≤ failuresOf (Accounts.succeed w.names (nameKey fold request.username)) key
    unfold failuresOf
    rw [AttemptLimiter.get?_succeed]
    rcases suffix_verify_right within wrong with rfl | ⟨other, before⟩
    · exact Nat.zero_le _
    · rw [if_neg fun own => other own.symm]
      exact sound.counted key s before wrong
  · intro key e has
    have has : (Accounts.succeed w.names (nameKey fold request.username)).get? key = some e := has
    rw [AttemptLimiter.get?_succeed] at has
    split at has
    · cases has
    · exact verified.locked key e has
  · intro key e has
    have has : (Accounts.succeed w.login (addressKey request.ip request.username)).get? key =
      some e := has
    rw [AttemptLimiter.get?_succeed] at has
    split at has
    · cases has
    · exact verified.login key e has
  · intro key e has
    have has : (Accounts.succeed w.names (nameKey fold request.username)).get? key = some e := has
    rw [AttemptLimiter.get?_succeed] at has
    split at has
    · cases has
    · exact verified.names key e has

/-- From the threshold on, a wrong password comes a lock after the one before it. -/
theorem LoginWorld.Sound.spaced_fail (sound : w.Sound fold) {t : List Verification} {first : ℕ}
    (free : retryAfterMs w.names (nameKey fold request.username) w.now = 0)
    (before : t <:+ w.named fold (nameKey fold request.username)) (wrong : ∀ v ∈ t, v.right = false)
    (begun : first ≤ w.now) (since : ∀ v ∈ t, first ≤ v.at_) :
    first + usernameLimiter.refill (t.length + 1 - usernameLimiter.maxFailures) ≤ w.now := by
  by_cases few : t.length < usernameLimiter.maxFailures
  · have burst : t.length + 1 - usernameLimiter.maxFailures = 0 := by omega
    rw [burst]
    exact begun
  · have any : t ≠ [] := by
      rintro rfl
      exact few (by decide)
    obtain ⟨v, mem, spaced⟩ := sound.spaced _ t before.isInfix wrong any first since
    obtain ⟨past, name⟩ := LoginWorld.mem_named.mp (before.subset mem)
    have counted := sound.counted _ t before wrong
    -- the name has an entry, whose lock is over
    unfold failuresOf at counted
    cases has : w.names.get? (nameKey fold request.username) with
    | none =>
      rw [has] at counted
      exact absurd (List.length_eq_zero_iff.mp (Nat.le_zero.mp counted)) any
    | some e =>
      rw [has] at counted
      have counted : t.length ≤ e.failures := counted
      have locked := sound.locked _ e has (by omega) v past (wrong v mem) name
      have ended := AttemptLimiter.lockedUntil_le free has
      have longer := AttemptLimiter.lock_mono (l := usernameLimiter)
        (show t.length - usernameLimiter.maxFailures ≤ e.failures - usernameLimiter.maxFailures by
          omega)
      have next : t.length + 1 - usernameLimiter.maxFailures =
          t.length - usernameLimiter.maxFailures + 1 := by omega
      rw [next, AttemptLimiter.refill]
      omega

/-- A wrong password, of a name that is not locked and that the limiter has room for. -/
theorem LoginWorld.Sound.fail (sound : w.Sound fold)
    (free : retryAfterMs w.names (nameKey fold request.username) w.now = 0)
    (room : usernameLimiter.hasRoom w.names (nameKey fold request.username) = true) :
    ((w.verify request false).fail fold request).Sound fold := by
  have entry : ∀ key, (usernameLimiter.fail w.names (nameKey fold request.username) w.now).get? key =
      _ := AttemptLimiter.get?_fail room
  refine ⟨past_verify sound false, sorted_verify sound false, ?_, ?_, ?_, ?_, ?_, sound.fair⟩
  · intro key s within wrong
    show s.length ≤ failuresOf
      (usernameLimiter.fail w.names (nameKey fold request.username) w.now) key
    have within : s <:+ (w.verify request false).named fold key := within
    unfold failuresOf
    rw [named_verify] at within
    rw [entry]
    split at within
    · next own =>
      rw [if_pos own.symm]
      show s.length ≤ (usernameLimiter.failed w.names _ w.now).failures
      rw [AttemptLimiter.failed_failures]
      rcases List.suffix_concat_iff.mp within with rfl | ⟨t, rfl, before⟩
      · exact Nat.zero_le _
      · have := sound.counted _ t (own ▸ before) fun v mem => wrong v (List.mem_append_left _ mem)
        rw [List.length_append, List.length_singleton]
        omega
    · next other =>
      rw [List.append_nil] at within
      rw [if_neg fun own => other own.symm]
      exact sound.counted key s within wrong
  · intro key e has many v mem wrong name
    have has : (usernameLimiter.fail w.names (nameKey fold request.username) w.now).get? key =
      some e := has
    rw [entry] at has
    split at has
    · obtain rfl := Option.some.inj has
      have now : v.at_ ≤ w.now := past_verify sound false v mem
      have lockedUntil : (usernameLimiter.failed w.names (nameKey fold request.username)
          w.now).lockedUntil = w.now + usernameLimiter.lock ((usernameLimiter.failed w.names
            (nameKey fold request.username) w.now).failures - usernameLimiter.maxFailures) :=
        if_pos many
      rw [lockedUntil]
      omega
    · next other =>
      rcases List.mem_append.mp mem with mem | mem
      · exact sound.locked key e has many v mem wrong name
      · obtain rfl := List.mem_singleton.mp mem
        exact absurd name.symm other
  · intro key s within wrong any first since
    have within : s <:+: (w.verify request false).named fold key := within
    rw [named_verify] at within
    split at within
    · next own =>
      subst own
      rcases List.infix_concat_iff.mp within with ending | before
      · rcases List.suffix_concat_iff.mp ending with none | ⟨t, rfl, before⟩
        · exact absurd none any
        · have here := since _ (List.mem_append_right _ List.mem_cons_self)
          refine ⟨_, List.mem_append_right _ List.mem_cons_self, ?_⟩
          rw [List.length_append, List.length_singleton]
          exact sound.spaced_fail free before (fun v mem => wrong v (List.mem_append_left _ mem)) here
            fun v mem => since v (List.mem_append_left _ mem)
      · exact sound.spaced _ s before wrong any first since
    · rw [List.append_nil] at within
      exact sound.spaced key s within wrong any first since
  · intro key e has
    rcases AttemptLimiter.get?_fail_cases has with rfl | was
    · exact ⟨_, List.mem_append_right _ List.mem_cons_self, rfl, rfl⟩
    · obtain ⟨v, mem, of⟩ := sound.login key e was
      exact ⟨v, List.mem_append_left _ mem, of⟩
  · intro key e has
    rcases AttemptLimiter.get?_fail_cases has with rfl | was
    · exact ⟨_, List.mem_append_right _ List.mem_cons_self, rfl, rfl⟩
    · obtain ⟨v, mem, of⟩ := sound.names key e was
      exact ⟨v, List.mem_append_left _ mem, of⟩

/-- An attempt that is refused is of a name that was guessed wrongly. -/
theorem LoginWorld.Sound.refuse (sound : w.Sound fold) (locked : w.isLocked fold request = true)
    (inTurn : ∀ v ∈ w.history, v.right = false →
      addressKey v.ip v.username = addressKey request.ip request.username →
      nameKey fold v.username = nameKey fold request.username) :
    (w.refuse fold request).Sound fold := by
  have guessed : w.wasGuessed fold request.username = true := by
    have known : ∃ v ∈ w.history, v.right = false ∧
        nameKey fold v.username = nameKey fold request.username := by
      simp only [LoginWorld.isLocked, Bool.or_eq_true, decide_eq_true_eq] at locked
      rcases locked with locked | locked
      · obtain ⟨e, has⟩ := AttemptLimiter.get?_of_locked locked
        obtain ⟨v, mem, wrong, same⟩ := sound.login _ e has
        exact ⟨v, mem, wrong, inTurn v mem wrong same⟩
      · obtain ⟨e, has⟩ := AttemptLimiter.get?_of_locked locked
        exact sound.names _ e has
    obtain ⟨v, mem, wrong, same⟩ := known
    exact List.any_eq_true.mpr ⟨v, mem, by simp [wrong, same]⟩
  refine ⟨sound.past, sound.sorted, sound.counted, sound.locked, sound.spaced, sound.login,
    sound.names, ?_⟩
  intro refusal mem
  rcases List.mem_append.mp mem with mem | mem
  · exact sound.fair refusal mem
  · obtain rfl := List.mem_singleton.mp mem
    exact guessed

/-! ### The look at the table, and the clock -/

/-- A name that is not locked has a lock that is over, if it has one. -/
theorem nameLock_le (free : retryAfterMs w.names (nameKey fold request.username) w.now = 0) :
    w.nameLock fold request ≤ w.now := by
  unfold LoginWorld.nameLock
  cases has : w.names.get? (nameKey fold request.username) with
  | none => exact Nat.zero_le _
  | some e => exact AttemptLimiter.lockedUntil_le free has

/-- …and one whose lock is over is not locked. -/
theorem free_of_nameLock_le (ended : w.nameLock fold request ≤ w.now) :
    retryAfterMs w.names (nameKey fold request.username) w.now = 0 := by
  unfold LoginWorld.nameLock at ended
  unfold retryAfterMs
  cases has : w.names.get? (nameKey fold request.username) with
  | none => rfl
  | some e =>
    rw [has] at ended
    exact if_neg (not_lt.mpr ended)

theorem LoginTask.Free.later {task : LoginTask} {w' : LoginWorld} (free : task.Free w)
    (later : w.now ≤ w'.now) : task.Free w' := by
  cases task with
  | checking request => trivial
  | finding request lock => exact Nat.le_trans free later
  | verifying request user lock => exact Nat.le_trans free later

theorem LoginWorld.Sound.wait (sound : w.Sound fold) (ms : ℕ) :
    LoginWorld.Sound fold { w with now := w.now + ms } :=
  ⟨fun v mem => (sound.past v mem).trans (Nat.le_add_right _ _), sound.sorted, sound.counted,
    sound.locked, sound.spaced, sound.login, sound.names, sound.fair⟩

end Sound

variable {fold : String → String}

/-- No step of an attempt moves the clock. -/
theorem now_resume {w s : LoginWorld} {task : LoginTask} {answer : LoginAnswer}
    {next : Option LoginTask} (resumed : task.resume fold w answer = some (s, next)) :
    s.now = w.now := by
  unfold LoginTask.resume at resumed
  split at resumed
  · split at resumed <;> obtain ⟨rfl, -⟩ := Prod.mk.inj (Option.some.inj resumed) <;> rfl
  · obtain ⟨rfl, -⟩ := Prod.mk.inj (Option.some.inj resumed)
    rfl
  · dsimp only at resumed
    split at resumed
    · obtain ⟨rfl, -⟩ := Prod.mk.inj (Option.some.inj resumed)
      rfl
    · split at resumed <;> obtain ⟨rfl, -⟩ := Prod.mk.inj (Option.some.inj resumed) <;> rfl
  · cases resumed

theorem loginSystem_keeps :
    (loginSystem fold).Keeps (onGo (LoginTask.InTurn fold)) (LoginWorld.Sound fold)
      fun w task => task.Free w where
  begins _ _ := trivial
  goes := by
    intro w t answer task s next allowed holds running resumed
    have sound := holds.shared
    have inTurn := allowed task running
    have free := holds.tasks t task running
    have ended : ∀ (s : LoginWorld) (n : LoginTask), none = some n → n.Free s := by
      intro s n is
      cases is
    unfold loginSystem LoginTask.resume at resumed
    dsimp only at resumed
    split at resumed
    · next request =>
      split at resumed <;> obtain ⟨rfl, rfl⟩ := Prod.mk.inj (Option.some.inj resumed)
      · next locked => exact ⟨sound.refuse locked inTurn, ended _⟩
      · next unlocked =>
        refine ⟨sound, fun n is => ?_⟩
        obtain rfl := Option.some.inj is
        simp only [LoginWorld.isLocked, Bool.or_eq_true, decide_eq_true_eq, not_or] at unlocked
        exact nameLock_le (by omega)
    · obtain ⟨rfl, rfl⟩ := Prod.mk.inj (Option.some.inj resumed)
      refine ⟨sound, fun n is => ?_⟩
      obtain rfl := Option.some.inj is
      exact free
    · next request user lock ok =>
      cases right : user.isSome && ok with
      | false =>
        simp only [right, Bool.not_false, if_true] at resumed
        obtain ⟨rfl, rfl⟩ := Prod.mk.inj (Option.some.inj resumed)
        obtain ⟨noLater, room⟩ := inTurn right
        exact ⟨sound.fail (free_of_nameLock_le (noLater.trans free)) room, ended _⟩
      | true =>
        simp only [right, Bool.not_true, Bool.false_eq_true, if_false] at resumed
        split at resumed <;> obtain ⟨rfl, rfl⟩ := Prod.mk.inj (Option.some.inj resumed)
        · exact ⟨sound.verify_right, ended _⟩
        · exact ⟨sound.succeed, ended _⟩
    · cases resumed
  stays _ holds _ resumed _ hu := (holds.tasks _ _ hu).later (now_resume resumed).ge
  world := by
    intro w ms s _ holds moved
    obtain rfl := Option.some.inj moved
    exact ⟨holds.shared.wait ms, fun t task running =>
      (holds.tasks t task running).later (Nat.le_add_right _ _)⟩

theorem LoginWorld.Sound.start : LoginWorld.Sound fold {} where
  past _ mem := by cases mem
  sorted := List.Pairwise.nil
  counted key s within _ := by
    rw [List.suffix_nil.mp within]
    exact Nat.zero_le _
  locked _ _ _ _ _ mem := by cases mem
  spaced key s within _ any := absurd (List.infix_nil.mp within) any
  login _ _ has := by cases has
  names _ _ has := by cases has
  fair _ mem := by cases mem

/-- An attempt on the name `ops`, from an address. -/
def onOps (ip : String) : LoginRequest := { ip := ip, username := "ops" }

/-- An attempt with a wrong password, from its beginning to its end. -/
def wrongGuess (t : ℕ) (request : LoginRequest) : List (TaskEvent LoginRequest LoginAnswer ℕ) :=
  [.begin t request, .go t .called, .go t (.found none), .go t (.verified false)]

/-- Ten wrong guesses from as many addresses lock the name: the next attempt is refused, and the one
after the lock is looked at. Then the right password is given. -/
def lockedOut : List (TaskEvent LoginRequest LoginAnswer ℕ) :=
  (List.range 10).flatMap (fun n => wrongGuess n (onOps (toString n))) ++
    [.begin 10 (onOps "10"), .go 10 .called, .world 5000] ++ wrongGuess 11 (onOps "11") ++
    [.world 10000, .begin 12 (onOps "12"), .go 12 .called, .go 12 (.found (some false)),
      .go 12 (.verified true)]

end Syncle.Accounts
