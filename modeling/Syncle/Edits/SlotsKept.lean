import Syncle.Edits.Slots

/-!
# Every slot is somebody's, or is written down

A slot that exists belongs to a bridge that is live on its server and database, or there is a record
of it. A release takes the bridge's cover away, so it has to remove the slot or leave a record; a
record that is dropped has to have stood for nothing, or for what its bridge reads from.

The invariant is stated over who is live where (`L`): a save puts the new configuration in place
before it releases what the old one had, and in between the bridge still stands for both.
-/

namespace Syncle.Edits

open Lib

variable {B C M V : Type*} [DecidableEq B] [DecidableEq C] [DecidableEq V] (at_ : Servers C V)

/-- Where a bridge is configured as live, and with which kind of slot. -/
def Bridge.slotAt (bridge : Bridge C M) : Option (Place C × SlotKind) :=
  match bridge.live, bridge.slot with
  | some src, some kind => if at_.postgres src.connectionId then some (src.place, kind) else none
  | _, _ => none

namespace Slots

variable (s : Slots B C M V)

def LiveAt (b : B) (place : Place C) (kind : SlotKind) : Prop :=
  (s.bridges b).bind (Bridge.slotAt at_) = some (place, kind)

/-! ## The invariant -/

/-- Who is live where. -/
abbrev Live (B C : Type*) := B → Place C → SlotKind → Prop

def OwnCovered (L : Live B C) (b : B) (v : V) (database : String) : Prop :=
  (∃ place kind, L b place kind ∧ at_.server place.1 = v ∧ place.2 = database) ∨
    ∃ c ∈ s.cleanups, c.bridgeId = b ∧ at_.server c.place.1 = v ∧ c.place.2 = database

def SharedCovered (L : Live B C) (place : Place C) : Prop :=
  (∃ b, L b place .shared) ∨ ∃ c ∈ s.cleanups, c.place = place

structure Booked (L : Live B C) : Prop where
  own : ∀ b v database, s.own b v = some database → s.OwnCovered at_ L b v database
  shared : ∀ place, s.shared place = true → s.SharedCovered L place
  /-- a row that its bridge no longer means is written down -/
  members : ∀ b place, (b, place) ∈ s.members → L b place .shared ∨ ⟨b, place⟩ ∈ s.cleanups
  unique : ∀ c ∈ s.cleanups, ∀ c' ∈ s.cleanups,
    c.bridgeId = c'.bridgeId → c.place.1 = c'.place.1 → c = c'

end Slots

open Slots

section Book

variable {at_} {s s' : Slots B C M V} {L L' : Live B C} {b : B} {place : Place C}

/-- Who is live where, but for one bridge at one place. -/
def Slots.Live.but (L : Live B C) (b : B) (place : Place C) : Live B C :=
  fun b' place' kind => L b' place' kind ∧ ¬ (b' = b ∧ place' = place)

omit [DecidableEq B] [DecidableEq C] [DecidableEq V] in
theorem Slots.Booked.mono (booked : s.Booked at_ L) (more : ∀ b place kind, L b place kind → L' b place kind) :
    s.Booked at_ L' where
  own b v d is := (booked.own b v d is).imp
    (fun ⟨place, kind, live, rest⟩ => ⟨place, kind, more _ _ _ live, rest⟩) id
  shared place is := (booked.shared place is).imp (fun ⟨b, live⟩ => ⟨b, more _ _ _ live⟩) id
  members b place mem := (booked.members b place mem).imp (more _ _ _) id
  unique := booked.unique

/-!
## What a release removes

A release shrinks what is on the servers, and never a slot of another bridge.
-/

/-- There is less on the sources. -/
structure Less (s s' : Slots B C M V) : Prop where
  own : ∀ b v database, s'.own b v = some database → s.own b v = some database
  shared : ∀ place, s'.shared place = true → s.shared place = true
  members : ∀ m ∈ s'.members, m ∈ s.members

/-- And nothing else is another. -/
structure Shrinks (s s' : Slots B C M V) : Prop extends Less s s' where
  cleanups : s'.cleanups = s.cleanups
  bridges : s'.bridges = s.bridges
  streaming : s'.streaming = s.streaming
  position : s'.position = s.position

omit [DecidableEq B] [DecidableEq C] [DecidableEq V] in
theorem Shrinks.refl (s : Slots B C M V) : Shrinks s s :=
  ⟨⟨fun _ _ _ is => is, fun _ is => is, fun _ mem => mem⟩, rfl, rfl, rfl, rfl⟩

omit [DecidableEq B] [DecidableEq C] [DecidableEq V] in
theorem Shrinks.trans {t : Slots B C M V} (first : Shrinks s s') (second : Shrinks s' t) :
    Shrinks s t where
  own b v d is := first.own b v d (second.own b v d is)
  shared place is := first.shared place (second.shared place is)
  members m mem := first.members m (second.members m mem)
  cleanups := second.cleanups.trans first.cleanups
  bridges := second.bridges.trans first.bridges
  streaming := second.streaming.trans first.streaming
  position := second.position.trans first.position

omit [DecidableEq B] [DecidableEq C] [DecidableEq V] in
theorem Slots.Booked.shrink (booked : s.Booked at_ L) (less : Shrinks s s') : s'.Booked at_ L where
  own b v d is := by
    unfold OwnCovered
    rw [less.cleanups]
    exact booked.own b v d (less.own b v d is)
  shared place is := by
    unfold SharedCovered
    rw [less.cleanups]
    exact booked.shared place (less.shared place is)
  members b place mem := by
    rw [less.cleanups]
    exact booked.members b place (less.members _ mem)
  unique := by
    rw [less.cleanups]
    exact booked.unique

omit [DecidableEq C] [DecidableEq V] in
theorem update_eq {α : Type*} {f : B → α} {b b' : B} {x y : α} (is : Function.update f b x b' = y) :
    (b' = b ∧ x = y) ∨ (b' ≠ b ∧ f b' = y) := by
  rw [Function.update_apply] at is
  split at is
  · next same => exact Or.inl ⟨same, is⟩
  · next other => exact Or.inr ⟨other, is⟩

omit [DecidableEq C] in
/-- Of one bridge, the slot on one server. -/
theorem update_update_eq {f : B → V → Option String} {b b' : B} {v v' : V} {x y : Option String}
    (is : Function.update f b (Function.update (f b) v x) b' v' = y) :
    (b' = b ∧ v' = v ∧ x = y) ∨ f b' v' = y := by
  by_cases same : b' = b
  · have inner : Function.update (f b) v x v' = y := by rwa [Function.update_apply, if_pos same] at is
    rcases update_eq inner with ⟨there, is⟩ | ⟨-, is⟩
    · exact Or.inl ⟨same, there, is⟩
    · exact Or.inr (same ▸ is)
  · exact Or.inr (by rwa [Function.update_apply, if_neg same] at is)

omit [DecidableEq V] in
theorem leave_shrinks (b : B) (place : Place C) (r : Release) : Shrinks s (s.leave b place r).1 := by
  have rowless : Shrinks s { s with members := s.members.filter fun m => m.1 ≠ b } :=
    ⟨⟨fun _ _ _ is => is, fun _ is => is, fun _ mem => (List.mem_filter.mp mem).1⟩, rfl, rfl, rfl, rfl⟩
  unfold leave
  split
  · exact Shrinks.refl s
  · dsimp only
    split
    · exact rowless
    · split
      · exact rowless
      · refine rowless.trans
          ⟨⟨fun _ _ _ is => is, fun p is => ?_, fun _ mem => mem⟩, rfl, rfl, rfl, rfl⟩
        rcases update_eq is with ⟨-, no⟩ | ⟨-, is⟩
        · cases no
        · exact is

omit [DecidableEq C] in
theorem dropOwn_shrinks (b : B) (place : Place C) (r : Release) :
    Shrinks s (s.dropOwn at_ b place r).1 := by
  unfold dropOwn
  split
  · refine ⟨⟨fun b' v d is => ?_, fun _ is => is, fun _ mem => mem⟩, rfl, rfl, rfl, rfl⟩
    rcases update_update_eq is with ⟨-, -, no⟩ | is
    · cases no
    · exact is
  · exact Shrinks.refl s

theorem deprovision_shrinks (b : B) (place : Place C) (r : Release) :
    Shrinks s (s.deprovision at_ b place r).1 := by
  unfold deprovision
  dsimp only
  split
  · exact (leave_shrinks b place r).trans (dropOwn_shrinks b place r)
  · exact leave_shrinks b place r

/-- Nothing of the bridge is left there; a shared slot that is has other members. -/
structure Gone (at_ : Servers C V) (s : Slots B C M V) (b : B) (place : Place C) : Prop where
  own : s.own b (at_.server place.1) = none
  rows : ∀ p, (b, p) ∉ s.members
  shared : s.shared place = true → ∃ b', (b', place) ∈ s.members

theorem deprovision_gone {r : Release} (ok : (s.deprovision at_ b place r).2 = true) :
    Gone at_ (s.deprovision at_ b place r).1 b place := by
  unfold deprovision at ok ⊢
  dsimp only at ok ⊢
  split at ok
  case isFalse => cases ok
  case isTrue left =>
    rw [if_pos left]
    -- once the row is gone, the slot stays for the others or is dropped
    have gone : (∀ p, (b, p) ∉ (s.leave b place r).1.members) ∧
        ((s.leave b place r).1.shared place = true → ∃ b', (b', place) ∈ (s.leave b place r).1.members) := by
      revert left
      unfold leave
      have rowless (p : Place C) : (b, p) ∉ s.members.filter fun m => m.1 ≠ b := by
        intro mem
        simpa using (List.mem_filter.mp mem).2
      split
      · intro no
        cases no
      · dsimp only
        split
        · next others =>
          intro _
          refine ⟨rowless, fun _ => ?_⟩
          obtain ⟨⟨b', p⟩, mem, is⟩ := List.any_eq_true.mp others
          obtain rfl : p = place := by simpa using is
          exact ⟨b', mem⟩
        · split
          · intro no
            cases no
          · intro _
            refine ⟨rowless, fun is => ?_⟩
            rcases update_eq is with ⟨-, no⟩ | ⟨other, -⟩
            · cases no
            · exact absurd rfl other
    unfold dropOwn at ok ⊢
    split at ok
    case isFalse => cases ok
    case isTrue dropped =>
      rw [if_pos dropped]
      refine ⟨?_, gone.1, gone.2⟩
      simp

/-!
## What it does to the book

A slot that is gone may be in the book or not; one that is there has to be.
-/

omit [DecidableEq V] in
/-- The records of what is gone may go. `others`: those for another database of the connection stand
for nothing. -/
theorem Slots.Booked.gone (booked : s.Booked at_ L) (gone : Gone at_ s b place)
    (others : ∀ c ∈ s.cleanups, c.bridgeId = b → c.place.1 = place.1 → c.place ≠ place →
      s.shared c.place = true → ∃ b', L b' c.place .shared) :
    (s.forget b place.1).Booked at_ (L.but b place) := by
  have kept {c : Cleanup B C} (mem : c ∈ s.cleanups) (not : ¬ (c.bridgeId = b ∧ c.place.1 = place.1)) :
      c ∈ (s.forget b place.1).cleanups := List.mem_filter.mpr ⟨mem, by simp [not]⟩
  have whole {p : Place C} (is : s.shared p = true) :
      p = place → (s.forget b place.1).SharedCovered (L.but b place) p := by
    rintro rfl
    obtain ⟨b', row⟩ := gone.shared is
    have ne : b' ≠ b := fun same => gone.rows p (same ▸ row)
    rcases booked.members b' p row with live | noted
    · exact Or.inl ⟨b', live, fun both => ne both.1⟩
    · exact Or.inr ⟨_, kept noted fun both => ne both.1, rfl⟩
  refine ⟨fun b' v d is => ?_, fun p is => ?_, fun b' p mem => ?_, fun c mem c' mem' => ?_⟩
  · have none {v : V} (here : at_.server place.1 = v) : s.own b v ≠ some d := by
      rw [← here, gone.own]
      intro no
      cases no
    rcases booked.own b' v d is with ⟨p, kind, live, rest⟩ | ⟨c, mem, rest⟩
    · refine Or.inl ⟨p, kind, ⟨live, fun both => ?_⟩, rest⟩
      obtain ⟨rfl, rfl⟩ := both
      exact none rest.1 is
    · refine Or.inr ⟨c, kept mem fun both => ?_, rest⟩
      obtain ⟨rfl, same⟩ := both
      obtain ⟨rfl, there, -⟩ := rest
      exact none (same ▸ there) is
  · by_cases here : p = place
    · exact whole is here
    · rcases booked.shared p is with ⟨b', live⟩ | ⟨c, mem, rfl⟩
      · exact Or.inl ⟨b', live, fun both => here both.2⟩
      · by_cases dropped : c.bridgeId = b ∧ c.place.1 = place.1
        · obtain ⟨b', live⟩ := others c mem dropped.1 dropped.2 here is
          exact Or.inl ⟨b', live, fun both => here both.2⟩
        · exact Or.inr ⟨c, kept mem dropped, rfl⟩
  · have ne : b' ≠ b := fun same => gone.rows p (same ▸ mem)
    rcases booked.members b' p mem with live | noted
    · exact Or.inl ⟨live, fun both => ne both.1⟩
    · exact Or.inr (kept noted fun both => ne both.1)
  · exact booked.unique c (List.mem_filter.mp mem).1 c' (List.mem_filter.mp mem').1

omit [DecidableEq B] [DecidableEq C] [DecidableEq V] in
/-- What is written down needs no bridge. -/
theorem Slots.Booked.noted (booked : s.Booked at_ L) (noted : ⟨b, place⟩ ∈ s.cleanups) :
    s.Booked at_ (L.but b place) := by
  refine ⟨fun b' v d is => ?_, fun p is => ?_, fun b' p mem => ?_, booked.unique⟩
  · rcases booked.own b' v d is with ⟨p, kind, live, rest⟩ | covered
    · by_cases here : b' = b ∧ p = place
      · obtain ⟨rfl, rfl⟩ := here
        exact Or.inr ⟨_, noted, rfl, rest⟩
      · exact Or.inl ⟨p, kind, ⟨live, here⟩, rest⟩
    · exact Or.inr covered
  · rcases booked.shared p is with ⟨b', live⟩ | covered
    · by_cases here : b' = b ∧ p = place
      · exact Or.inr ⟨_, noted, here.2.symm⟩
      · exact Or.inl ⟨b', live, here⟩
    · exact Or.inr covered
  · rcases booked.members b' p mem with live | covered
    · by_cases here : b' = b ∧ p = place
      · exact Or.inr (here.1 ▸ here.2 ▸ noted)
      · exact Or.inl ⟨live, here⟩
    · exact Or.inr covered

omit [DecidableEq V] in
theorem Slots.Booked.note (booked : s.Booked at_ L) (b : B) (place : Place C) :
    (s.note b place).Booked at_ L := by
  unfold Slots.note
  split
  · exact booked
  · next new =>
    refine ⟨fun b' v d is => ?_, fun p is => ?_, fun b' p mem => ?_, fun c mem c' mem' isB isC => ?_⟩
    · exact (booked.own b' v d is).imp_right fun ⟨c, mem, rest⟩ =>
        ⟨c, List.mem_append_left _ mem, rest⟩
    · exact (booked.shared p is).imp_right fun ⟨c, mem, rest⟩ => ⟨c, List.mem_append_left _ mem, rest⟩
    · exact (booked.members b' p mem).imp_right fun mem => List.mem_append_left _ mem
    · have fresh {c : Cleanup B C} (mem : c ∈ s.cleanups) : ¬ (c.bridgeId = b ∧ c.place.1 = place.1) := by
        intro both
        exact new (List.any_eq_true.mpr ⟨c, mem, by simpa using both⟩)
      rcases List.mem_append.mp mem with old | last <;> rcases List.mem_append.mp mem' with old' | last'
      · exact booked.unique c old c' old' isB isC
      · obtain rfl := List.mem_singleton.mp last'
        exact absurd ⟨isB, isC⟩ (fresh old)
      · obtain rfl := List.mem_singleton.mp last
        exact absurd ⟨isB.symm, isC.symm⟩ (fresh old')
      · exact (List.mem_singleton.mp last).trans (List.mem_singleton.mp last').symm

/-!
## What a release has to meet

Either the slot can be reached and is removed, or there is room in the book for a record of it.
-/

/-- Does the source let everything go? The shared slot goes with its last member. -/
def Slots.through (s : Slots B C M V) (b : B) (place : Place C) (r : Release) : Bool :=
  r.left && ((s.members.any fun m => m.1 ≠ b ∧ m.2 = place) || r.sharedDropped) && r.ownDropped

/-- The records of the bridge for other databases of the connection stand for nothing, or for a shared
slot that a live bridge reads from. A release that goes through drops them. -/
def Slots.OthersGone (L : Live B C) (s : Slots B C M V) (b : B) (place : Place C) : Prop :=
  ∀ c ∈ s.cleanups, c.bridgeId = b → c.place.1 = place.1 → c.place ≠ place →
    s.shared c.place = true → ∃ b', L b' c.place .shared

/-- There is nothing of the bridge, and nothing that needs it. -/
structure Bare (at_ : Servers C V) (L : Live B C) (s : Slots B C M V) (b : B) (place : Place C) :
    Prop where
  own : s.own b (at_.server place.1) ≠ some place.2
  row : (b, place) ∉ s.members
  shared : s.shared place = true → ∃ b', b' ≠ b ∧ L b' place .shared

/-- A failed release can be written down, under the database that is given up. -/
def Slots.CanNote (s : Slots B C M V) (b : B) (place : Place C) (r : Release) : Prop :=
  r.resolves = true ∧ r.noted = true ∧
    ∀ c ∈ s.cleanups, c.bridgeId = b → c.place.1 = place.1 → c.place = place

/-- A bridge gives a place up: it leaves nothing there, or a record of it. -/
def Slots.GivesUp (at_ : Servers C V) (L : Live B C) (s : Slots B C M V) (b : B) (place : Place C)
    (r : Release) : Prop :=
  at_.postgres place.1 = true →
    if r.resolves && s.through b place r then s.OthersGone L b place
    else ∀ kind, L b place kind → Bare at_ L s b place ∨ s.CanNote b place r

theorem deprovision_snd (s : Slots B C M V) (b : B) (place : Place C) (r : Release) :
    (s.deprovision at_ b place r).2 = s.through b place r := by
  have others : Slots.remaining { s with members := s.members.filter fun m => m.1 ≠ b } place =
      s.members.any fun m => m.1 ≠ b ∧ m.2 = place := by
    simp [Slots.remaining, List.any_filter]
  have own (t : Slots B C M V) : (t.dropOwn at_ b place r).2 = r.ownDropped := by
    unfold dropOwn
    cases r.ownDropped <;> rfl
  unfold deprovision through leave
  dsimp only
  rw [others]
  cases r.left with
  | false => rfl
  | true =>
    cases s.members.any fun m => m.1 ≠ b ∧ m.2 = place with
    | true => simp [own]
    | false =>
      cases r.sharedDropped with
      | true => simp [own]
      | false => rfl

omit [DecidableEq V] in
/-- What a failed release leaves is written down under the place that is given up. -/
theorem mem_note {s : Slots B C M V} {b : B} {place : Place C}
    (only : ∀ c ∈ s.cleanups, c.bridgeId = b → c.place.1 = place.1 → c.place = place) :
    ⟨b, place⟩ ∈ (s.note b place).cleanups := by
  unfold note
  split
  · next known =>
    obtain ⟨⟨b', p⟩, mem, is⟩ := List.any_eq_true.mp known
    obtain ⟨rfl, here⟩ : b' = b ∧ p.1 = place.1 := by simpa using is
    obtain rfl : p = place := only _ mem rfl here
    exact mem
  · exact List.mem_append_right _ (List.mem_singleton.mpr rfl)

theorem releaseSource_less (s : Slots B C M V) (b : B) (place : Place C) (r : Release) :
    Less s (s.releaseSource at_ b place r).1 := by
  have less := (@deprovision_shrinks B C M V _ _ _ at_ s b place r).toLess
  unfold releaseSource
  split
  · exact (Shrinks.refl s).toLess
  · split
    · exact (Shrinks.refl s).toLess
    · dsimp only
      split
      · exact ⟨less.own, less.shared, less.members⟩
      · split
        · unfold note
          split <;> exact ⟨less.own, less.shared, less.members⟩
        · exact less

theorem releaseSource_same (s : Slots B C M V) (b : B) (place : Place C) (r : Release) :
    (s.releaseSource at_ b place r).1.bridges = s.bridges ∧
      (s.releaseSource at_ b place r).1.streaming = s.streaming ∧
      (s.releaseSource at_ b place r).1.position = s.position := by
  have less := @deprovision_shrinks B C M V _ _ _ at_ s b place r
  unfold releaseSource
  split
  · exact ⟨rfl, rfl, rfl⟩
  · split
    · exact ⟨rfl, rfl, rfl⟩
    · dsimp only
      split
      · exact ⟨less.bridges, less.streaming, less.position⟩
      · split
        · unfold note
          split <;> exact ⟨less.bridges, less.streaming, less.position⟩
        · exact ⟨less.bridges, less.streaming, less.position⟩

omit [DecidableEq B] [DecidableEq V] in
theorem Slots.Booked.bare (booked : s.Booked at_ L) (bare : Bare at_ L s b place) :
    s.Booked at_ (L.but b place) := by
  refine ⟨fun b' v d is => ?_, fun p is => ?_, fun b' p mem => ?_, booked.unique⟩
  · rcases booked.own b' v d is with ⟨p, kind, live, rest⟩ | covered
    · refine Or.inl ⟨p, kind, ⟨live, fun both => ?_⟩, rest⟩
      obtain ⟨rfl, rfl⟩ := both
      obtain ⟨rfl, rfl⟩ := rest
      exact bare.own is
    · exact Or.inr covered
  · by_cases here : p = place
    · obtain ⟨b', ne, live⟩ := bare.shared (here ▸ is)
      exact Or.inl ⟨b', here ▸ live, fun both => ne both.1⟩
    · exact (booked.shared p is).imp_left fun ⟨b', live⟩ => ⟨b', live, fun both => here both.2⟩
  · rcases booked.members b' p mem with live | noted
    · refine Or.inl ⟨live, fun both => ?_⟩
      obtain ⟨rfl, rfl⟩ := both
      exact bare.row mem
    · exact Or.inr noted

/-- A release that leaves the bridge live where it was. -/
theorem Slots.Booked.release (booked : s.Booked at_ L) {r : Release}
    (others : r.resolves = true → s.through b place r = true → s.OthersGone L b place) :
    (s.releaseSource at_ b place r).1.Booked at_ L := by
  have less := @deprovision_shrinks B C M V _ _ _ at_ s b place r
  have left := booked.shrink less
  unfold releaseSource
  split
  · exact booked
  · next resolves =>
    split
    · exact booked
    · dsimp only
      split
      · next ok =>
        refine (left.gone (deprovision_gone ok) fun c mem isB isC ne is => ?_).mono fun _ _ _ live => live.1
        rw [less.cleanups] at mem
        exact others (by simpa using resolves) (deprovision_snd s b place r ▸ ok) c mem isB isC ne
          (less.shared _ is)
      · split
        · exact left.note b place
        · exact left

/-- **A bridge gives a place up.** -/
theorem Slots.Booked.giveUp (booked : s.Booked at_ L) (pg : ∀ b p kind, L b p kind → at_.postgres p.1 = true)
    {r : Release} (gives : s.GivesUp at_ L b place r) :
    (s.releaseSource at_ b place r).1.Booked at_ (L.but b place) := by
  have less := @deprovision_shrinks B C M V _ _ _ at_ s b place r
  have left := booked.shrink less
  -- where the bridge is not live there is nothing to lose
  have idle {t : Slots B C M V} (booked : t.Booked at_ L) (none : ∀ kind, ¬ L b place kind) :
      t.Booked at_ (L.but b place) := by
    refine booked.mono fun b' p kind live => ⟨live, fun both => ?_⟩
    obtain ⟨rfl, rfl⟩ := both
    exact none kind live
  by_cases engine : at_.postgres place.1 = true
  · have gives := gives engine
    by_cases ok : (r.resolves && s.through b place r) = true
    · rw [if_pos ok] at gives
      obtain ⟨resolves, ok⟩ := Bool.and_eq_true_iff.mp ok
      have done : (s.deprovision at_ b place r).2 = true := (deprovision_snd s b place r).trans ok
      have through : s.releaseSource at_ b place r =
          ((s.deprovision at_ b place r).1.forget b place.1, true) := by
        simp [releaseSource, resolves, engine, done]
      rw [through]
      refine left.gone (deprovision_gone done) fun c mem isB isC ne is => ?_
      rw [less.cleanups] at mem
      exact gives c mem isB isC ne (less.shared _ is)
    · rw [if_neg ok] at gives
      have others (resolves : r.resolves = true) (through : s.through b place r = true) :
          s.OthersGone L b place := absurd (by rw [resolves, through]; rfl) ok
      by_cases live : ∃ kind, L b place kind
      · obtain ⟨kind, live⟩ := live
        rcases gives kind live with bare | ⟨resolves, noted, only⟩
        · have less := @releaseSource_less B C M V _ _ _ at_ s b place r
          exact (booked.release others).bare ⟨fun is => bare.own (less.own _ _ _ is),
            fun mem => bare.row (less.members _ mem), fun is => bare.shared (less.shared _ is)⟩
        · have failed : (s.deprovision at_ b place r).2 = false := by
            rw [deprovision_snd]
            simpa [resolves] using ok
          have written : s.releaseSource at_ b place r =
              ((s.deprovision at_ b place r).1.note b place, false) := by
            simp [releaseSource, resolves, engine, failed, noted]
          rw [written]
          refine (left.note b place).noted (mem_note fun c mem => ?_)
          rw [less.cleanups] at mem
          exact only c mem
      · exact idle (booked.release others) fun kind is => live ⟨kind, is⟩
  · have same : s.releaseSource at_ b place r = (s, r.resolves) := by
      unfold releaseSource
      cases r.resolves <;> simp [engine]
    rw [same]
    exact idle booked fun kind live => engine (pg b place kind live)

/-! ## What a start makes -/

theorem Slots.Booked.provision (booked : s.Booked at_ L) {kind : SlotKind} {r : Release} {p : Provision}
    (live : at_.postgres place.1 = true → L b place kind) :
    (s.provision at_ b place kind r p).Booked at_ L := by
  unfold Slots.provision
  split
  · exact booked
  · next reached =>
    have live : L b place kind := live (by simpa using (not_or.mp reached).2)
    cases kind with
    | shared =>
      dsimp only
      have left := booked.shrink (@dropOwn_shrinks B C M V _ _ at_ s b place r)
      split
      · exact left
      · generalize (s.dropOwn at_ b place r).1 = t at left
        have made : Slots.Booked at_ { t with shared := Function.update t.shared place true } L := by
          refine ⟨left.own, fun p is => ?_, left.members, left.unique⟩
          rcases update_eq is with ⟨rfl, -⟩ | ⟨-, is⟩
          · exact Or.inl ⟨b, live⟩
          · exact left.shared p is
        unfold Slots.join
        dsimp only
        split
        · exact made
        · refine ⟨made.own, made.shared, fun b' p mem => ?_, made.unique⟩
          rcases List.mem_append.mp mem with old | new
          · exact made.members b' p (List.mem_filter.mp old).1
          · split at new
            · obtain ⟨rfl, rfl⟩ := Prod.mk.inj (List.mem_singleton.mp new)
              exact Or.inl live
            · cases new
    | own =>
      dsimp only
      have left : Slots.Booked at_
          (if s.members.any fun m => m.1 = b then (s.leave b place r).1 else s) L := by
        split
        · exact booked.shrink (leave_shrinks b place r)
        · exact booked
      generalize (if s.members.any fun m => m.1 = b then (s.leave b place r).1 else s) = t at left
      split
      · refine ⟨fun b' v d is => ?_, left.shared, left.members, left.unique⟩
        rcases update_update_eq is with ⟨rfl, rfl, made⟩ | is
        · exact Or.inl ⟨place, .own, live, rfl, Option.some.inj made⟩
        · exact left.own _ _ _ is
      · exact left

theorem provision_same (s : Slots B C M V) (b : B) (place : Place C) (kind : SlotKind) (r : Release)
    (p : Provision) : (s.provision at_ b place kind r p).bridges = s.bridges ∧
      (s.provision at_ b place kind r p).streaming = s.streaming := by
  unfold Slots.provision
  split
  · exact ⟨rfl, rfl⟩
  · cases kind with
    | shared =>
      have less := @dropOwn_shrinks B C M V _ _ at_ s b place r
      dsimp only
      split
      · exact ⟨less.bridges, less.streaming⟩
      · unfold Slots.join
        dsimp only
        split <;> exact ⟨less.bridges, less.streaming⟩
    | own =>
      have less := @leave_shrinks B C M V _ _ s b place r
      dsimp only
      by_cases row : (s.members.any fun m => m.1 = b) = true
      · rw [if_pos row]
        split <;> exact ⟨less.bridges, less.streaming⟩
      · rw [if_neg row]
        split <;> exact ⟨rfl, rfl⟩

theorem provision_bridges {kind : SlotKind} {r : Release} {p : Provision} :
    (s.provision at_ b place kind r p).bridges = s.bridges :=
  (provision_same s b place kind r p).1

/-! ## The whole book -/

/-- What holds whenever an operation is through. -/
structure InBook (at_ : Servers C V) (s : Slots B C M V) : Prop where
  booked : s.Booked at_ (s.LiveAt at_)
  streams : ∀ b, s.streaming b = true →
    ∃ bridge src, s.bridges b = some bridge ∧ bridge.live = some src

omit [DecidableEq B] [DecidableEq C] [DecidableEq V] in
theorem slotAt_eq {bridge : Bridge C M} {kind : SlotKind} :
    bridge.slotAt at_ = some (place, kind) ↔
      ∃ src, bridge.live = some src ∧ bridge.slot = some kind ∧ src.place = place ∧
        at_.postgres place.1 = true := by
  unfold Bridge.slotAt
  cases bridge.live with
  | none => simp
  | some src =>
    cases bridge.slot with
    | none => simp
    | some k =>
      by_cases pg : at_.postgres src.connectionId = true
      · simp only [pg, ↓reduceIte, Option.some.injEq, Prod.mk.injEq]
        constructor
        · rintro ⟨rfl, rfl⟩
          exact ⟨src, rfl, rfl, rfl, pg⟩
        · rintro ⟨src', rfl, rfl, rfl, -⟩
          exact ⟨rfl, rfl⟩
      · simp only [pg]
        constructor
        · intro no
          cases no
        · rintro ⟨src', is, -, rfl, no⟩
          obtain rfl := Option.some.inj is
          exact absurd no pg

omit [DecidableEq B] [DecidableEq C] [DecidableEq V] in
theorem liveAt_iff {kind : SlotKind} : s.LiveAt at_ b place kind ↔
    ∃ bridge, s.bridges b = some bridge ∧ bridge.slotAt at_ = some (place, kind) :=
  Option.bind_eq_some_iff

omit [DecidableEq B] [DecidableEq C] [DecidableEq V] in
theorem liveAt_postgres (b : B) (place : Place C) (kind : SlotKind) (live : s.LiveAt at_ b place kind) :
    at_.postgres place.1 = true := by
  obtain ⟨bridge, -, is⟩ := liveAt_iff.mp live
  obtain ⟨-, -, -, -, pg⟩ := slotAt_eq.mp is
  exact pg

omit [DecidableEq C] [DecidableEq V] in
/-- A save is about one bridge. -/
theorem liveAt_set {x : Option (Bridge C M)} {b' : B} {kind : SlotKind} (ne : b' ≠ b) :
    Slots.LiveAt at_ { s with bridges := Function.update s.bridges b x } b' place kind ↔
      s.LiveAt at_ b' place kind := by
  simp [Slots.LiveAt, ne]

/-!
## What a sweep takes away

A sweep takes what the book says, and only asks whether the bridge is read there now.
-/

/-- The bridge's slot is there: its own, or the shared one with its row. -/
def Slots.Holds (at_ : Servers C V) (s : Slots B C M V) (b : B) : Prop :=
  ∃ place kind, s.LiveAt at_ b place kind ∧
    match kind with
    | .own => (s.own b (at_.server place.1)).isSome = true
    | .shared => (b, place) ∈ s.members ∧ s.shared place = true

/-- What a release of the place takes of a bridge. `leave` takes its row whichever slot it is of. -/
def Slots.takes (at_ : Servers C V) (s : Slots B C M V) (task : Cleanup B C) (r : Release)
    (place : Place C) : SlotKind → Prop
  | .own => at_.server place.1 = at_.server task.place.1 ∧ s.through task.bridgeId task.place r = true
  | .shared => r.left = true

/-- The bridge of the record is read on its very connection, or has no position, or nothing that the
release takes. -/
def Slots.SweepSafe (at_ : Servers C V) (s : Slots B C M V) (task : Cleanup B C) (r : Release) : Prop :=
  s.inUse task = false → r.resolves = true → at_.postgres task.place.1 = true →
    s.position task.bridgeId = true → s.Holds at_ task.bridgeId →
    ∀ place kind, s.LiveAt at_ task.bridgeId place kind → ¬ s.takes at_ task r place kind

omit [DecidableEq V] in
theorem leave_left {r : Release} (left : r.left = true) (p : Place C) :
    (b, p) ∉ (s.leave b place r).1.members := by
  have rowless : (b, p) ∉ s.members.filter fun m => m.1 ≠ b := by
    intro mem
    simpa using (List.mem_filter.mp mem).2
  unfold leave
  simp only [left, Bool.not_true, Bool.false_eq_true, ↓reduceIte]
  split
  · exact rowless
  · split <;> exact rowless

omit [DecidableEq V] in
/-- The others keep their rows, and the slot with them. -/
theorem leave_others {r : Release} {b' : B} {p : Place C} (ne : b' ≠ b) (row : (b', p) ∈ s.members) :
    (b', p) ∈ (s.leave b place r).1.members ∧
      (s.leave b place r).1.shared p = s.shared p := by
  have kept : (b', p) ∈ s.members.filter fun m => m.1 ≠ b :=
    List.mem_filter.mpr ⟨row, by simpa using ne⟩
  unfold leave
  split
  · exact ⟨row, rfl⟩
  · dsimp only
    split
    · exact ⟨kept, rfl⟩
    · next alone =>
      split
      · exact ⟨kept, rfl⟩
      · refine ⟨kept, ?_⟩
        -- a member's slot is not the one that nobody else is in
        have other : p ≠ place := by
          rintro rfl
          exact alone (List.any_eq_true.mpr ⟨_, kept, by simp⟩)
        simp [other]

omit [DecidableEq V] in
theorem leave_own (r : Release) : (s.leave b place r).1.own = s.own := by
  unfold leave
  split
  · rfl
  · dsimp only
    split
    · rfl
    · split <;> rfl

/-- The slots of the other servers, and of the other bridges, stay. -/
theorem deprovision_own {r : Release} {b' : B} {v : V}
    (other : b' ≠ b ∨ v ≠ at_.server place.1 ∨ s.through b place r = false) :
    (s.deprovision at_ b place r).1.own b' v = s.own b' v := by
  have snd := @deprovision_snd B C M V _ _ _ at_ s b place r
  unfold deprovision at snd ⊢
  dsimp only at snd ⊢
  split at snd
  case isFalse gone => rw [if_neg gone, leave_own]
  case isTrue gone =>
    rw [if_pos gone]
    unfold dropOwn at snd ⊢
    split at snd
    case isFalse kept => rw [if_neg kept, leave_own]
    case isTrue dropped =>
      rw [if_pos dropped]
      dsimp only
      rw [leave_own]
      rcases other with ne | ne | no
      · simp [ne]
      · by_cases same : b' = b
        · simp [same, ne]
        · simp [same]
      · rw [no] at snd
        cases snd

theorem deprovision_members (r : Release) :
    (s.deprovision at_ b place r).1.members = (s.leave b place r).1.members ∧
      (s.deprovision at_ b place r).1.shared = (s.leave b place r).1.shared := by
  unfold deprovision dropOwn
  dsimp only
  split
  · split <;> exact ⟨rfl, rfl⟩
  · exact ⟨rfl, rfl⟩

/-- The slots after a release are those that `deprovision` left. -/
theorem releaseSource_slots {r : Release} (resolves : r.resolves = true)
    (engine : at_.postgres place.1 = true) :
    (s.releaseSource at_ b place r).1.own = (s.deprovision at_ b place r).1.own ∧
      (s.releaseSource at_ b place r).1.members = (s.deprovision at_ b place r).1.members ∧
      (s.releaseSource at_ b place r).1.shared = (s.deprovision at_ b place r).1.shared := by
  unfold releaseSource
  simp only [resolves, engine, Bool.not_true, Bool.false_eq_true, ↓reduceIte]
  split
  · exact ⟨rfl, rfl, rfl⟩
  · split
    · unfold note
      split <;> exact ⟨rfl, rfl, rfl⟩
    · exact ⟨rfl, rfl, rfl⟩

theorem releaseSource_idle {r : Release} (idle : ¬ (r.resolves = true ∧ at_.postgres place.1 = true)) :
    (s.releaseSource at_ b place r).1 = s := by
  unfold releaseSource
  cases resolves : r.resolves with
  | false => rfl
  | true =>
    have engine : at_.postgres place.1 = false := by simpa [resolves] using idle
    rw [engine]
    rfl

omit [DecidableEq B] [DecidableEq C] [DecidableEq V] in
/-- What a bridge holds is about its configuration, its own slot, and its row. -/
theorem Slots.Holds.of_same {b : B} (holds : s.Holds at_ b) (bridges : s'.bridges = s.bridges)
    (own : ∀ place, s.LiveAt at_ b place .own →
      s'.own b (at_.server place.1) = s.own b (at_.server place.1))
    (shared : ∀ place, s.LiveAt at_ b place .shared → (b, place) ∈ s.members →
      (b, place) ∈ s'.members ∧ s'.shared place = s.shared place) : s'.Holds at_ b := by
  obtain ⟨place, kind, live, has⟩ := holds
  have live' : s'.LiveAt at_ b place kind := by
    unfold LiveAt
    rw [bridges]
    exact live
  refine ⟨place, kind, live', ?_⟩
  cases kind with
  | own =>
    have has : (s.own b (at_.server place.1)).isSome = true := has
    change (s'.own b (at_.server place.1)).isSome = true
    rw [own place live]
    exact has
  | shared =>
    obtain ⟨row, there⟩ := has
    obtain ⟨row', same⟩ := shared place live row
    exact ⟨row', same.trans there⟩

omit [DecidableEq B] [DecidableEq C] [DecidableEq V] in
theorem Slots.LiveAt.same {b : B} {p q : Place C} {kind kind' : SlotKind} (one : s.LiveAt at_ b p kind)
    (other : s.LiveAt at_ b q kind') : p = q ∧ kind = kind' :=
  Prod.mk.inj (Option.some.inj (one.symm.trans other))

/-- **A sweep keeps the slots of live bridges that have a position** if and only if it is safe. -/
theorem sweepOne_holds_iff {task : Cleanup B C} {r : Release} :
    (∀ b, s.position b = true → s.Holds at_ b → (s.sweepOne at_ task r).Holds at_ b) ↔
      s.SweepSafe at_ task r := by
  unfold Slots.sweepOne
  by_cases use : s.inUse task = true
  · rw [if_pos use]
    constructor
    · intro _ no
      rw [use] at no
      cases no
    · intro _ b _ holds
      exact holds
  · have idle : s.inUse task = false := by simpa using use
    rw [if_neg use]
    obtain ⟨bridges, -, -⟩ := @releaseSource_same B C M V _ _ _ at_ s task.bridgeId task.place r
    by_cases works : r.resolves = true ∧ at_.postgres task.place.1 = true
    · obtain ⟨own, rows, shared⟩ := @releaseSource_slots B C M V _ _ _ at_ s task.bridgeId task.place
        r works.1 works.2
      obtain ⟨rows', shared'⟩ := @deprovision_members B C M V _ _ _ at_ s task.bridgeId task.place r
      rw [rows'] at rows
      rw [shared'] at shared
      constructor
      · intro kept _ _ _ has holds place kind live takes
        obtain ⟨place', kind', live', still⟩ := kept task.bridgeId has holds
        have live' : s.LiveAt at_ task.bridgeId place' kind' := by
          unfold LiveAt at live' ⊢
          rwa [bridges] at live'
        obtain ⟨rfl, rfl⟩ := live.same live'
        cases kind with
        | own =>
          obtain ⟨server, through⟩ := takes
          have left : (s.deprovision at_ task.bridgeId task.place r).2 = true :=
            (deprovision_snd _ _ _ _).trans through
          have gone := (deprovision_gone left).own
          have still : ((s.releaseSource at_ task.bridgeId task.place r).1.own task.bridgeId
            (at_.server place.1)).isSome = true := still
          rw [own, server, gone] at still
          cases still
        | shared =>
          have row := still.1
          rw [rows] at row
          exact leave_left takes _ row
      · intro safe b has holds
        by_cases same : b = task.bridgeId
        · subst same
          have untaken := safe idle works.1 works.2 has holds
          refine holds.of_same bridges (fun place live => ?_) fun place live row => ?_
          · rw [own]
            refine deprovision_own (Or.inr ?_)
            by_cases there : at_.server place.1 = at_.server task.place.1
            · have not := untaken place .own live
              simp only [takes, there, true_and] at not
              exact Or.inr (by simpa using not)
            · exact Or.inl there
          · have not : r.left = false := by simpa [takes] using untaken place .shared live
            rw [rows, shared]
            unfold leave
            rw [not]
            exact ⟨row, rfl⟩
        · refine holds.of_same bridges (fun place _ => ?_) fun place _ row => ?_
          · rw [own]
            exact deprovision_own (Or.inl same)
          · rw [rows, shared]
            exact leave_others same row
    · rw [releaseSource_idle works]
      constructor
      · intro _ _ resolves engine
        exact absurd ⟨resolves, engine⟩ works
      · intro _ b _ holds
        exact holds

end Book

end Syncle.Edits
