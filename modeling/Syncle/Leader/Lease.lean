import Syncle.Lib.Run
import Syncle.Leader.Instance

/-!
# The lease and those who believe in it

A process believes that it leads from the answer that says so until it hears otherwise; Redis lets
the lease run out whatever the process believes. As long as no lease runs out under a process that
believes in it, whoever believes holds it (`Held`), and one lease has one holder.

Nothing in the code keeps a lease from running out: the renewals wait for the listeners that an
election calls, and a process that cannot reach Redis counts the lease from when it read the last
answer, not from when Redis gave it. So where a lease does run out under its holder, any other
process may be elected beside it (`leads_once`, second part).
-/

namespace Syncle.Leader

open Lib

variable {I : Type*} {c : Config I} {k : I}

namespace Instance

/-- It leads, or will as soon as it reads the answer that is there. -/
def Believes (i : Instance) : Prop :=
  i.crashed = false ∧ (i.leader = true ∨ i.waits = .answered .acquire true)

/-- What holds of a process whatever the others do. -/
structure Sound (i : Instance) : Prop where
  /-- only who does not lead tries for the lease -/
  tries : i.waits = .asked .acquire ∨ (∃ ok, i.waits = .answered .acquire ok) → i.leader = false
  awaited : ∀ x ∈ i.sent, x.awaited = true → i.waits = .asked x.request
  /-- one request is waited for, and nothing is sent after it that would undo it -/
  last : i.sent.Pairwise fun x y =>
    x.awaited = true → y.awaited = false ∧ x.request ≠ .acquire
  won : i.waits = .answered .acquire true → i.sent = []
  /-- the lease is given back by who has stopped leading -/
  released : ∀ x ∈ i.sent, x.request = .release → i.leader = false

variable {i : Instance}

theorem sound_init : Sound {} :=
  ⟨fun _ => rfl, by simp, List.Pairwise.nil, by simp, by simp⟩

/-- Where no beat is under way, nobody waits for a request. -/
theorem Sound.unawaited (h : i.Sound) (idle : ∀ request, i.waits ≠ .asked request) :
    ∀ x ∈ i.sent, x.awaited = false := by
  intro x hx
  by_contra awaited
  exact idle x.request (h.awaited x hx (by simpa using awaited))

/-- A process that stops waiting for an answer about the lease. -/
theorem Sound.idle {j : Instance} (h : i.Sound) (sent : j.sent = i.sent)
    (unawaited : ∀ x ∈ i.sent, x.awaited = false)
    (leader : (∃ x ∈ i.sent, x.request = .release) → j.leader = false)
    (asked : ∀ request, j.waits ≠ .asked request) (answered : ∀ r ok, j.waits ≠ .answered r ok) :
    j.Sound := by
  refine ⟨?_, ?_, sent ▸ h.last, fun won => absurd won (answered _ _), ?_⟩
  · rintro (is | ⟨ok, is⟩)
    · exact absurd is (asked _)
    · exact absurd is (answered _ _)
  · intro x hx awaited
    rw [sent] at hx
    rw [unawaited x hx] at awaited
    cases awaited
  · intro x hx release
    exact leader ⟨x, sent ▸ hx, release⟩

theorem tell_waits (i : Instance) (n : Nat) :
    (i.tell n).waits = .nothing ∨ (i.tell n).waits = .listeners n := by
  unfold tell
  by_cases none : n = 0 <;> simp [none]

theorem tell_idle (i : Instance) (n : Nat) :
    (∀ request, (i.tell n).waits ≠ .asked request) ∧
      ∀ request ok, (i.tell n).waits ≠ .answered request ok := by
  rcases tell_waits i n with is | is <;> simp [is]

theorem sound_tell (h : i.Sound) (unawaited : ∀ x ∈ i.sent, x.awaited = false) (n : Nat) :
    (i.tell n).Sound :=
  h.idle rfl unawaited (fun ⟨x, hx, release⟩ => h.released x hx release) (tell_idle i n).1
    (tell_idle i n).2

theorem sound_send (h : i.Sound) (alive : i.waits = .alive) {request : Request}
    (tries : request = .acquire → i.leader = false) (keeps : request ≠ .release) :
    (i.send request).Sound := by
  have unawaited := h.unawaited (by simp [alive])
  refine ⟨?_, ?_, ?_, by simp [send], ?_⟩
  · rintro (is | ⟨ok, is⟩)
    · exact tries (Waits.asked.inj is)
    · cases is
  · intro x hx awaited
    rcases List.mem_append.mp hx with old | new
    · rw [unawaited x old] at awaited
      cases awaited
    · obtain rfl := List.mem_singleton.mp new
      rfl
  · refine List.pairwise_append.mpr ⟨h.last, List.pairwise_singleton _ _, ?_⟩
    intro x hx y _ awaited
    rw [unawaited x hx] at awaited
    cases awaited
  · intro x hx release
    rcases List.mem_append.mp hx with old | new
    · exact h.released x old release
    · obtain rfl := List.mem_singleton.mp new
      exact absurd release keeps

theorem sound_giveUp (h : i.Sound) : i.giveUp.Sound := by
  refine ⟨by simp [giveUp], ?_, ?_, by simp [giveUp], ?_⟩
  · intro x hx awaited
    obtain ⟨y, -, rfl⟩ := List.mem_map.mp hx
    cases awaited
  · refine List.pairwise_map.mpr (h.last.imp ?_)
    intro x y _ awaited
    cases awaited
  · intro x hx release
    obtain ⟨y, hy, rfl⟩ := List.mem_map.mp hx
    exact h.released y hy release

theorem unawaited_giveUp (i : Instance) : ∀ x ∈ i.giveUp.sent, x.awaited = false := by
  intro x hx
  obtain ⟨y, -, rfl⟩ := List.mem_map.mp hx
  rfl

theorem sound_stepDown (h : i.Sound) (unawaited : ∀ x ∈ i.sent, x.awaited = false) :
    (c.stepDown k i).Sound := by
  unfold Config.stepDown
  split
  case isTrue =>
    exact h.idle rfl unawaited (fun _ => rfl) (tell_idle _ _).1 (tell_idle _ _).2
  case isFalse =>
    exact h.idle rfl unawaited (fun ⟨x, hx, release⟩ => h.released x hx release) (by simp) (by simp)

theorem sound_failed (h : i.Sound) (now : Nat) : (c.failed k now i).Sound := by
  unfold Config.failed
  split
  case isTrue => exact sound_stepDown (sound_giveUp h) (unawaited_giveUp i)
  case isFalse => exact sound_giveUp h

theorem sound_answer (h : i.Sound) {request : Request} {ok : Bool}
    (answered : i.waits = .answered request ok) (now : Nat) :
    (c.answer k now i request ok).Sound := by
  have unawaited := h.unawaited (by simp [answered])
  have same : ∀ j : Instance, j.sent = i.sent → j.leader = i.leader → j.waits = .nothing →
      j.Sound := by
    intro j sent leader waits
    refine h.idle sent unawaited (fun ⟨x, hx, release⟩ => ?_) (by simp [waits]) (by simp [waits])
    rw [leader]
    exact h.released x hx release
  cases request with
  | renew =>
    cases ok with
    | true => exact same _ rfl rfl rfl
    | false => exact sound_stepDown h unawaited
  | acquire =>
    cases ok with
    | true =>
      refine h.idle rfl unawaited (fun ⟨x, hx, _⟩ => ?_) (tell_idle _ _).1 (tell_idle _ _).2
      rw [h.won answered] at hx
      cases hx
    | false => exact same _ rfl rfl rfl
  | release => exact same _ rfl rfl rfl

/-- A process goes on to something that makes it neither lead nor win. -/
theorem Believes.of_leader {j : Instance} (believes : j.Believes)
    (leader : j.leader = true → i.leader = true) (crashed : j.crashed = i.crashed)
    (waits : j.waits ≠ .answered .acquire true) : i.Believes := by
  obtain ⟨lives, leads | won⟩ := believes
  · exact ⟨crashed ▸ lives, Or.inl (leader leads)⟩
  · exact absurd won waits

theorem stepDown_believes (believes : (c.stepDown k i).Believes) : i.Believes := by
  unfold Config.stepDown at believes
  split at believes
  case isTrue => exact believes.of_leader (fun leads => by cases leads) rfl ((tell_idle _ _).2 _ _)
  case isFalse => exact believes.of_leader id rfl (by simp)

theorem failed_believes {now : Nat} (believes : (c.failed k now i).Believes) : i.Believes := by
  have gives : ∀ h : i.giveUp.Believes, i.Believes :=
    fun h => h.of_leader id rfl (by simp [giveUp])
  unfold Config.failed at believes
  split at believes
  case isTrue => exact gives (stepDown_believes believes)
  case isFalse => exact gives believes

theorem answer_believes {now : Nat} {request : Request} {ok : Bool}
    (waits : i.waits = .answered request ok) (believes : (c.answer k now i request ok).Believes) :
    i.Believes := by
  have same : ∀ j : Instance, j.Believes → j.leader = i.leader → j.crashed = i.crashed →
      j.waits = .nothing → i.Believes := by
    intro j believes leader crashed waits
    exact believes.of_leader (leader ▸ id) crashed (by simp [waits])
  cases request with
  | renew =>
    cases ok with
    | true => exact same _ believes rfl rfl rfl
    | false => exact stepDown_believes believes
  | acquire =>
    cases ok with
    | true => exact ⟨believes.1, Or.inr waits⟩
    | false => exact same _ believes rfl rfl rfl
  | release => exact same _ believes rfl rfl rfl

end Instance

namespace Cluster

variable {s s' : Cluster I}

/-- Whoever believes that it leads holds the lease, and it has not run out. -/
def Held (s : Cluster I) : Prop :=
  ∀ k, (s.instances k).Believes → ∃ l, s.lease = some l ∧ l.holder = k ∧ s.now < l.expiresAt

structure Inv (s : Cluster I) : Prop where
  sound : ∀ k, (s.instances k).Sound
  held : s.Held

/-- No lease runs out under a process that believes in it. -/
def InTime (s : Cluster I) : Event I → Prop
  | .wait ms => ∀ l, s.lease = some l → (s.instances l.holder).Believes → s.now + ms < l.expiresAt
  | _ => True

/-- Processes that start, with what is left in Redis from those before. -/
def boot (now : Nat) (lease : Option (Lease I)) : Cluster I := { now, lease }

theorem ttlMs_pos : 0 < c.ttlMs k :=
  Nat.mul_pos (Nat.lt_of_lt_of_le Nat.two_pos (Nat.le_max_left _ _)) (by simp)

theorem inv_boot {now : Nat} {lease : Option (Lease I)} : (boot now lease).Inv := by
  refine ⟨fun _ => Instance.sound_init, fun k believes => ?_⟩
  rcases believes.2 with is | is <;> cases is

variable [DecidableEq I]

theorem put_same {i : Instance} : (s.put k i).instances k = i := Function.update_self ..

theorem put_other {i : Instance} {j : I} (other : j ≠ k) :
    (s.put k i).instances j = s.instances j := Function.update_of_ne other ..

/-- One process changes, and the lease with it. -/
theorem inv_put {i : Instance} {lease : Option (Lease I)} (inv : s.Inv) (sound : i.Sound)
    (self : i.Believes → ∃ l, lease = some l ∧ l.holder = k ∧ s.now < l.expiresAt)
    (others : ∀ j ≠ k, ∀ l, s.lease = some l → l.holder = j → s.now < l.expiresAt →
      lease = some l) :
    ({ s.put k i with lease } : Cluster I).Inv := by
  constructor
  · intro j
    change ((s.put k i).instances j).Sound
    by_cases same : j = k
    · rw [same, put_same]
      exact sound
    · rw [put_other same]
      exact inv.sound j
  · intro j believes
    change ((s.put k i).instances j).Believes at believes
    by_cases same : j = k
    · subst same
      rw [put_same] at believes
      exact self believes
    · rw [put_other same] at believes
      obtain ⟨l, there, holder, time⟩ := inv.held j believes
      exact ⟨l, others j same l there holder time, holder, time⟩

/-- A process moves on, and does not come to believe more than it did. -/
theorem inv_move {f : Instance → Option Instance} (inv : s.Inv) (h : s.move k f = some s')
    (keeps : ∀ i, f (s.instances k) = some i → (s.instances k).crashed = false →
      i.Sound ∧ (i.Believes → (s.instances k).Believes)) : s'.Inv := by
  unfold move at h
  split at h
  case isTrue => cases h
  case isFalse lives =>
    obtain ⟨i, moved, rfl⟩ := Option.map_eq_some_iff.mp h
    obtain ⟨sound, believed⟩ := keeps i moved (by simpa using lives)
    exact inv_put inv sound (fun believes => inv.held k (believed believes))
      fun _ _ _ lease _ _ => lease

/-- What Redis does to the lease leaves the lease of another process that believes in it alone. -/
theorem redis_other {request : Request} {j : I} (other : j ≠ k) {l : Lease I}
    (lease : s.lease = some l) (holder : l.holder = j) (time : s.now < l.expiresAt) :
    (s.redis c k request).1 = some l := by
  have alive : s.alive = some l := by simp [Cluster.alive, lease, time]
  have held : s.held k = false := by simp [Cluster.held, alive, holder, other]
  cases request <;> simp [redis, held, alive, lease]

/-- A renewal, or a try, of who believes it holds the lease leaves it with the lease. -/
theorem redis_self {request : Request} (keeps : request ≠ .release) {l : Lease I}
    (lease : s.lease = some l) (holder : l.holder = k) (time : s.now < l.expiresAt) :
    ∃ l', (s.redis c k request).1 = some l' ∧ l'.holder = k ∧ s.now < l'.expiresAt := by
  have alive : s.alive = some l := by simp [Cluster.alive, lease, time]
  have held : s.held k = true := by simp [Cluster.held, alive, holder]
  have pos : 0 < c.ttlMs k := ttlMs_pos
  cases request with
  | renew => exact ⟨⟨k, s.now + c.ttlMs k⟩, by simp [redis, held], rfl, by simpa using pos⟩
  | acquire => exact ⟨l, by simp [redis, alive, lease], holder, time⟩
  | release => exact absurd rfl keeps

theorem acquire_won (won : (s.redis c k .acquire).2 = true) :
    s.alive = none ∧ (s.redis c k .acquire).1 = some ⟨k, s.now + c.ttlMs k⟩ := by
  unfold redis at *
  cases alive : s.alive with
  | none => simp
  | some l => simp [alive] at won

theorem sound_executed {i : Instance} (sound : i.Sound) {x : Sent} {rest : List Sent}
    (sent : i.sent = x :: rest) (ok : Bool) : (i.executed x rest ok).Sound := by
  have later : ∀ y ∈ rest, y ∈ i.sent := by
    intro y hy
    simp [sent, hy]
  obtain ⟨alone, pairs⟩ := List.pairwise_cons.mp (sent ▸ sound.last)
  have released : ∀ y ∈ rest, y.request = .release → i.leader = false :=
    fun y hy => sound.released y (later y hy)
  cases awaited : x.awaited with
  | false =>
    have same : i.executed x rest ok = { i with sent := rest } := by
      simp [Instance.executed, awaited]
    rw [same]
    refine ⟨sound.tries, fun y hy => sound.awaited y (later y hy), pairs, fun won => ?_, released⟩
    have none := sound.won won
    rw [sent] at none
    cases none
  | true =>
    have same : i.executed x rest ok =
        { i with sent := rest, waits := .answered x.request ok } := by
      simp [Instance.executed, awaited]
    have asked : i.waits = .asked x.request := sound.awaited x (by simp [sent]) awaited
    rw [same]
    refine ⟨?_, fun y hy is => ?_, pairs, fun won => ?_, released⟩
    · rintro (is | ⟨ok', is⟩)
      · cases is
      · obtain ⟨request, -⟩ := Waits.answered.inj is
        exact sound.tries (Or.inl (request ▸ asked))
    · rw [(alone y hy awaited).1] at is
      cases is
    · obtain ⟨request, -⟩ := Waits.answered.inj won
      cases rest with
      | nil => rfl
      | cons y rest => exact absurd request (alone y List.mem_cons_self awaited).2

/-- Redis executes the next request of a process. -/
theorem inv_execute (inv : s.Inv) (h : s.execute c k = some s') : s'.Inv := by
  have sound := inv.sound k
  unfold execute at h
  split at h
  case h_1 => cases h
  case h_2 x rest sent =>
    obtain rfl := Option.some.inj h
    refine inv_put inv (sound_executed sound sent _) ?_
      fun _ other l lease holder time => redis_other other lease holder time
    rintro ⟨lives, leads | won⟩
    · -- it led before; what it sent does not give the lease back
      have keeps : x.request ≠ .release := by
        intro release
        have led : (s.instances k).leader = false := sound.released x (by simp [sent]) release
        exact absurd leads (by simp [Instance.executed, led])
      obtain ⟨l, lease, holder, time⟩ := inv.held k ⟨lives, Or.inl leads⟩
      exact redis_self keeps lease holder time
    · cases awaited : x.awaited with
      | true =>
        have is : Waits.answered x.request (s.redis c k x.request).2 = .answered .acquire true := by
          simpa only [Instance.executed, awaited, if_true] using won
        obtain ⟨request, ok⟩ := Waits.answered.inj is
        rw [request] at ok
        obtain ⟨-, lease⟩ := acquire_won ok
        exact ⟨_, request ▸ lease, rfl, Nat.lt_add_of_pos_right ttlMs_pos⟩
      | false =>
        have before : (s.instances k).waits = .answered .acquire true := by
          simpa [Instance.executed, awaited] using won
        have none := sound.won before
        rw [sent] at none
        cases none

theorem inv_lose (inv : s.Inv) (h : s.lose k = some s') : s'.Inv := by
  have sound := inv.sound k
  unfold lose at h
  split at h
  case h_1 => cases h
  case h_2 x rest sent =>
    split at h
    case isTrue => cases h
    case isFalse =>
      obtain rfl := Option.some.inj h
      have later : ∀ y ∈ rest, y ∈ (s.instances k).sent := by
        intro y hy
        simp [sent, hy]
      have pairs := (List.pairwise_cons.mp (sent ▸ sound.last)).2
      have lost : ({ s.instances k with sent := rest } : Instance).Sound := by
        refine ⟨sound.tries, fun y hy => sound.awaited y (later y hy), pairs, fun won => ?_,
          fun y hy => sound.released y (later y hy)⟩
        have none := sound.won won
        rw [sent] at none
        cases none
      exact inv_put inv lost (fun believes => inv.held k believes) fun _ _ _ lease _ _ => lease

theorem inv_step {e : Event I} (inTime : s.InTime e) (inv : s.Inv) (h : s.step c e = some s') :
    s'.Inv := by
  cases e with
  | wait ms =>
    obtain rfl := Option.some.inj h
    refine ⟨inv.sound, fun k believes => ?_⟩
    obtain ⟨l, lease, holder, -⟩ := inv.held k believes
    exact ⟨l, lease, holder, inTime l lease (holder ▸ believes)⟩
  | tick k =>
    simp only [step] at h
    refine inv_move inv h fun i moved _ => ?_
    have sound := inv.sound k
    split at moved
    case isTrue => cases moved
    case isFalse =>
      obtain rfl := Option.some.inj moved
      exact ⟨⟨sound.tries, sound.awaited, sound.last, sound.won, sound.released⟩, id⟩
  | heartbeat k =>
    simp only [step] at h
    refine inv_move inv h fun i moved _ => ?_
    have sound := inv.sound k
    unfold beat at moved
    split at moved
    case h_1 n idle waiting =>
      obtain rfl := Option.some.inj moved
      refine ⟨sound.idle rfl (sound.unawaited (by simp [idle])) ?_ ?_ ?_, ?_⟩
      · exact fun ⟨x, hx, release⟩ => sound.released x hx release
      · intro request
        simp only
        split <;> simp
      · intro request ok
        simp only
        split <;> simp
      · refine fun believes => believes.of_leader id rfl ?_
        simp only
        split <;> simp
    case h_2 => cases moved
  | said k =>
    simp only [step] at h
    refine inv_move inv h fun i moved _ => ?_
    have sound := inv.sound k
    split at moved
    case isTrue alive =>
      obtain rfl := Option.some.inj moved
      refine ⟨Instance.sound_send sound alive ?_ ?_, fun believes =>
        believes.of_leader id rfl (by simp [Instance.send])⟩
      · intro tries
        by_contra leads
        simp [leads] at tries
      · split <;> simp
    case isFalse => cases moved
  | execute k => exact inv_execute inv h
  | lose k => exact inv_lose inv h
  | answered k =>
    simp only [step] at h
    refine inv_move inv h fun i moved _ => ?_
    have sound := inv.sound k
    split at moved
    case h_1 request ok waits =>
      obtain rfl := Option.some.inj moved
      exact ⟨Instance.sound_answer sound waits _, Instance.answer_believes waits⟩
    case h_2 => cases moved
  | fail k =>
    simp only [step] at h
    have sound := inv.sound k
    refine inv_move inv h fun i moved _ => ?_
    split at moved
    case h_4 => cases moved
    all_goals
      obtain rfl := Option.some.inj moved
      exact ⟨Instance.sound_failed sound _, Instance.failed_believes⟩
  | listener k =>
    simp only [step] at h
    refine inv_move inv h fun i moved _ => ?_
    have sound := inv.sound k
    split at moved
    case h_1 left waits =>
      obtain rfl := Option.some.inj moved
      exact ⟨Instance.sound_tell sound (sound.unawaited (by simp [waits])) left,
        fun believes => believes.of_leader id rfl ((Instance.tell_idle _ _).2 _ _)⟩
    case h_2 => cases moved
  | destroy k =>
    simp only [step] at h
    refine inv_move inv h fun i moved lives => ?_
    have sound := inv.sound k
    split at moved
    case isTrue => cases moved
    case isFalse =>
      split at moved
      case isFalse =>
        obtain rfl := Option.some.inj moved
        exact ⟨⟨sound.tries, sound.awaited, sound.last, sound.won, sound.released⟩, id⟩
      case isTrue leads =>
        obtain rfl := Option.some.inj moved
        -- who leads does not try for the lease, so the release undoes no win
        have renews : ∀ x ∈ (s.instances k).sent, x.awaited = true → x.request ≠ .acquire := by
          intro x hx awaited acquire
          have asked := sound.awaited x hx awaited
          rw [acquire] at asked
          rw [sound.tries (Or.inl asked)] at leads
          cases leads
        refine ⟨⟨fun _ => rfl, fun x hx awaited => ?_, ?_, fun won => ?_, fun _ _ _ => rfl⟩, ?_⟩
        · rcases List.mem_append.mp hx with old | new
          · exact sound.awaited x old awaited
          · obtain rfl := List.mem_singleton.mp new
            cases awaited
        · refine List.pairwise_append.mpr ⟨sound.last, List.pairwise_singleton _ _, ?_⟩
          intro x hx y hy awaited
          obtain rfl := List.mem_singleton.mp hy
          exact ⟨rfl, renews x hx awaited⟩
        · rw [sound.tries (Or.inr ⟨true, won⟩)] at leads
          cases leads
        · exact fun _ => ⟨lives, Or.inl leads⟩
  | crash k =>
    simp only [step] at h
    refine inv_move inv h fun i moved _ => ?_
    have sound := inv.sound k
    obtain rfl := Option.some.inj moved
    exact ⟨⟨sound.tries, sound.awaited, sound.last, sound.won, sound.released⟩,
      fun believes => absurd believes.1 (by simp)⟩

theorem inv_run {now : Nat} {lease : Option (Lease I)} {es : List (Event I)}
    (run : Run (step c) InTime (boot now lease) es s) : s.Inv :=
  run.invariant inv_boot fun _ _ _ inTime inv h => inv_step inTime inv h

/-! ## When a lease runs out -/

/-- A process that has just started takes a lease that has run out. -/
theorem takeover {new : I} (fresh : s.instances new = {}) (free : s.alive = none) :
    ∃ es s', Run (step c) anyStep s es s' ∧ (s'.instances new).isLeader = true ∧
      ∀ j ≠ new, s'.instances j = s.instances j := by
  let beats : Instance := { campaigning := 1 }
  let asks : Instance := { waits := .asked .acquire, sent := [⟨.acquire, true⟩] }
  let wins : Instance := { waits := .answered .acquire true }
  let lease : Lease I := ⟨new, s.now + c.ttlMs new⟩
  have tick : s.step c (.tick new) = some (s.put new beats) := by
    simp [step, move, fresh, beats]
  have heartbeat : (s.put new beats).step c (.heartbeat new) =
      some (s.put new { waits := .alive }) := by
    simp [step, move, put, beat, beats]
  have said : (s.put new { waits := .alive }).step c (.said new) = some (s.put new asks) := by
    simp [step, move, put, Instance.send, asks]
  have execute : (s.put new asks).step c (.execute new) =
      some { s.put new wins with lease := some lease } := by
    have free' : (s.put new asks).alive = none := free
    have granted : (s.put new asks).redis c new .acquire = (some lease, true) := by
      simp only [redis, free', Option.isNone_none, if_true]
      rfl
    simp only [step, Cluster.execute, put_same, asks]
    rw [granted]
    simp [put, Instance.executed, wins]
  have answered : ({ s.put new wins with lease := some lease } : Cluster I).step c (.answered new) =
      some { s.put new (c.stepUp new s.now wins) with lease := some lease } := by
    simp [step, move, put, wins, Config.answer]
  refine ⟨_, _, .cons trivial tick (.cons trivial heartbeat (.cons trivial said
    (.cons trivial execute (.cons trivial answered (.nil _))))), ?_, fun j other => put_other other⟩
  change ((s.put new (c.stepUp new s.now wins)).instances new).isLeader = true
  rw [put_same]
  rfl

/-- **One leader, as long as no lease runs out under its holder.** Where one does, a process that
starts afterwards can be elected while the other still leads. -/
theorem leads_once {now : Nat} {lease : Option (Lease I)} {es : List (Event I)}
    (run : Run (step c) InTime (boot now lease) es s) :
    (∀ k k', (s.instances k).isLeader = true → (s.instances k').isLeader = true → k = k') ∧
      ∀ ms new, s.instances new = {} → ¬ s.InTime (.wait ms) →
        ∃ es' s' k, Run (step c) anyStep s (.wait ms :: es') s' ∧ k ≠ new ∧
          (s'.instances k).isLeader = true ∧ (s'.instances new).isLeader = true := by
  have inv := inv_run run
  have believes : ∀ k, (s.instances k).isLeader = true → (s.instances k).Believes := by
    intro k leads
    obtain ⟨lives, leader⟩ : (s.instances k).crashed = false ∧ (s.instances k).leader = true := by
      simpa [Instance.isLeader] using leads
    exact ⟨lives, Or.inl leader⟩
  constructor
  · intro k k' leads leads'
    obtain ⟨l, there, holder, -⟩ := inv.held k (believes k leads)
    obtain ⟨l', there', holder', -⟩ := inv.held k' (believes k' leads')
    obtain rfl : l = l' := Option.some.inj (there.symm.trans there')
    exact holder.symm.trans holder'
  · intro ms new fresh late
    simp only [InTime, not_forall, Nat.not_lt] at late
    obtain ⟨l, there, holder, out⟩ := late
    have other : l.holder ≠ new := by
      intro same
      rw [same, fresh] at holder
      rcases holder.2 with is | is <;> cases is
    let later : Cluster I := { s with now := s.now + ms }
    have free : later.alive = none := by
      simp [Cluster.alive, later, there, out]
    obtain ⟨es', s', taken, leads, rest⟩ : ∃ es s', Run (step c) anyStep later es s' ∧ _ :=
      takeover (show later.instances new = {} from fresh) free
    have same : s'.instances l.holder = s.instances l.holder := rest l.holder other
    have waited : Run (step c) anyStep s (.wait ms :: es') s' := .cons trivial rfl taken
    obtain ⟨lives, leader | won⟩ := holder
    · exact ⟨es', s', l.holder, waited, other, by simp [Instance.isLeader, same, lives, leader], leads⟩
    · -- the holder has yet to read that it won, and reads it now
      have reads : s'.step c (.answered l.holder) =
          some (s'.put l.holder (c.stepUp l.holder s'.now (s.instances l.holder))) := by
        simp [step, move, same, lives, won, Config.answer]
      refine ⟨_, _, l.holder, waited.snoc trivial reads, other, ?_, ?_⟩
      · rw [put_same]
        simp [Instance.isLeader, Config.stepUp, Instance.tell, lives]
      · rw [put_other other.symm]
        exact leads

/-- Everybody's lease lasts twenty seconds, and one listener is told of an election. -/
def twenty : Config Nat where
  leaderTtlSeconds _ := 20
  offset _ := 0
  elected _ := 1
  demoted _ := 1

@[grind =]
def election (k : Nat) : List (Event Nat) :=
  [.tick k, .heartbeat k, .said k, .execute k, .answered k]

/-- The first process is elected and its listener runs for as long as the lease lasts: the beat
that would renew it waits. Then the second is elected. -/
theorem not_leads_once :
    ¬ ∀ (es : List (Event Nat)) (s : Cluster Nat), Run (step twenty) anyStep (boot 0 none) es s →
      ∀ k k', (s.instances k).isLeader = true → (s.instances k').isLeader = true → k = k' := by
  intro always
  let es := election 0 ++ [.tick 0, .wait 20000] ++ election 1
  let s := (runEvents (step twenty) (boot 0 none) es).getD (boot 0 none)
  have run : Run (step twenty) anyStep (boot 0 none) es s := run_of_eval rfl
  have both : (s.instances 0).isLeader = true ∧ (s.instances 1).isLeader = true := by
    decide +kernel
  exact absurd (always es s run 0 1 both.1 both.2) (by decide)

instance (i : Instance) : Decidable i.Believes := inferInstanceAs (Decidable (_ ∧ _))

instance (s : Cluster I) (e : Event I) : Decidable (s.InTime e) :=
  match e with
  | .wait ms => inferInstanceAs (Decidable
      (∀ l ∈ s.lease, (s.instances l.holder).Believes → s.now + ms < l.expiresAt))
  | .tick _ | .heartbeat _ | .said _ | .execute _ | .lose _ | .answered _ | .fail _ | .listener _
  | .destroy _ | .crash _ => isTrue trivial

/-- The first process is elected, and its listener is done; after fifteen seconds it renews the lease,
and after fifteen more the second process tries for it. -/
def renewed : List (Event Nat) :=
  election 0 ++ [.listener 0, .wait 15000] ++ election 0 ++ [.wait 15000] ++ election 1

theorem leads_once_elected :
    ∃ s : Cluster Nat, s.now = 30000 ∧ (s.instances 0).isLeader = true ∧
      s.lease = some ⟨0, 35000⟩ ∧ (s.instances 1).isLeader = false ∧
      ∀ k k', (s.instances k).isLeader = true → (s.instances k').isLeader = true → k = k' := by
  let s := (runEvents (guarded (step twenty) InTime) (boot 0 none) renewed).getD (boot 0 none)
  have run : Run (step twenty) InTime (boot 0 none) renewed s := run_iff_runEvents.mpr rfl
  exact ⟨s, by decide +kernel, by decide +kernel, by decide +kernel, by decide +kernel,
    (leads_once run).1⟩

end Cluster

end Syncle.Leader
