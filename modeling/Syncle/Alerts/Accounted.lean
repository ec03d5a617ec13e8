import Syncle.Alerts.Service

/-!
# No alert without a trace

What is held back is counted for its key, and goes into the next message for it. The count is in
that message and nowhere else: a message that no channel takes has taken it along, and a map that has
grown past its limit forgets it with its key. As long as neither happens, every alert is accounted for
in every state (`accounted_of_gentle`).
-/

namespace Syncle.Alerts

open Syncle.Lib

/-!
## The statement

What an alert owes each channel it was let in for: sent, held back and counted in a later message, or
still under way.
-/

namespace AlertsService

variable (s : AlertsService)

/-- The alerts held back for a key. -/
def heldFor (key : List Char) : ℕ :=
  s.handled.countP fun h => h.key = key ∧ h.fate = .heldBack

/-- The alerts counted in the message of another. -/
def countedAt (place : ℕ) : ℕ := s.handled.countP fun h => h.fate = .countedIn place

/-- Its send is under way, or that of the alert it is counted in. -/
def UnderWay (place : ℕ) (h : Handled) : Prop :=
  ∃ x ∈ s.sends, x.place = place ∨ h.fate = .countedIn x.place

/-- It is counted in the message of a later alert to the same channel, of the same kind and bridge, and
that message was taken. -/
def CountedInSent (place : ℕ) (h : Handled) : Prop :=
  ∃ later other message, place < later ∧ s.handled[later]? = some other ∧
    h.fate = .countedIn later ∧ other.channel.id = h.channel.id ∧ other.event.type = h.event.type ∧
    other.event.bridgeId.getD "" = h.event.bridgeId.getD "" ∧
    other.fate = .sent message ∧ message.suppressed = some (s.countedAt later)

/-- It is held back, and the next message for its key will say how many are. -/
def StillCounted (h : Handled) : Prop :=
  h.fate = .heldBack ∧
    ∀ event, (outgoingOf s.sent h.key event).suppressed = some (s.heldFor h.key)

def Accounted (place : ℕ) (h : Handled) : Prop :=
  (∃ message, h.fate = .sent message) ∨ h.fate = .failed true ∨ s.CountedInSent place h ∨
    s.StillCounted h

/-- Every alert that was dispatched to a channel, and whose send is over, left a trace. -/
def NoneLost : Prop :=
  ∀ place h, s.handled[place]? = some h → s.UnderWay place h ∨ s.Accounted place h

end AlertsService

/-- The second refusal of a message meets none that carries a count; a failed send is recorded; and
what is forgotten was not counting. -/
def gentle (window : ℕ) (s : AlertsService) : AlertStep → Prop
  | .answered place result =>
    result.ok = false → ∀ x, s.sending place = some x → x.phase = .retrying →
      x.outgoing.suppressed = none
  | .recorded place kept =>
    kept = false → ∀ x result, s.sending place = some x → x.phase = .recording result →
      result.ok = true
  | .settled _ now =>
    sizeLimit < s.sent.size → ∀ key last, s.sent.get? key = some last →
      last.sentAt < now - window → last.suppressed = 0
  | _ => True

/-!
## Keys

The throttle's key is one text of three parts, and read from the left it has one reading: neither a
channel's id nor a type has the mark in it.
-/

theorem not_mem_text {c : Char} {letters : List Char} (h : c ∉ letters) :
    c ∉ (String.ofList letters).toList := by
  rw [String.toList_ofList]
  exact h

theorem AlertEventType.text_plain (t : AlertEventType) : '|' ∉ t.text := by
  cases t <;> exact not_mem_text (by decide)

theorem AlertEventType.text_inj {t u : AlertEventType} (h : t.text = u.text) : t = u := by
  cases t <;> cases u <;> first | rfl | exact absurd h (by decide)

/-- Texts without the separator are read back from between separators. -/
theorem append_separator_inj {a b x y : List Char} (ha : '|' ∉ a) (hb : '|' ∉ b)
    (h : a ++ '|' :: x = b ++ '|' :: y) : a = b ∧ x = y := by
  induction a generalizing b with
  | nil =>
    cases b with
    | nil => exact ⟨rfl, (List.cons.inj h).2⟩
    | cons c b => exact absurd (List.cons.inj h).1 fun is => hb (is ▸ List.mem_cons_self)
  | cons c a ih =>
    cases b with
    | nil => exact absurd (List.cons.inj h).1 fun is => ha (is ▸ List.mem_cons_self)
    | cons d b =>
      obtain ⟨rfl, rest⟩ := List.cons.inj h
      obtain ⟨rfl, rfl⟩ := ih (fun mem => ha (List.mem_cons_of_mem _ mem))
        (fun mem => hb (List.mem_cons_of_mem _ mem)) rest
      exact ⟨rfl, rfl⟩

/-- A key names its channel, kind and bridge. -/
theorem keyOf_inj {c c' : StoredChannel} {e e' : AlertEvent} (h : keyOf c e = keyOf c' e') :
    c.id = c'.id ∧ e.type = e'.type ∧ e.bridgeId.getD "" = e'.bridgeId.getD "" := by
  obtain ⟨id, h⟩ := append_separator_inj c.uuid c'.uuid h
  obtain ⟨type, bridge⟩ := append_separator_inj e.type.text_plain e'.type.text_plain h
  exact ⟨id, AlertEventType.text_inj type, String.toList_inj.mp bridge⟩

/-!
## Counting

What is held back under a key is what the next message of that key says it is.
-/

theorem countP_modify {α : Type*} (p : α → Bool) (f : α → α) {l : List α} {i : ℕ} {a : α}
    (here : l[i]? = some a) (same : p (f a) = p a) : (l.modify i f).countP p = l.countP p := by
  induction l generalizing i with
  | nil => simp at here
  | cons b l ih =>
    cases i with
    | zero =>
      obtain rfl : b = a := by simpa using here
      simp [List.countP_cons, same]
    | succ i =>
      rw [List.modify_succ_cons, List.countP_cons, List.countP_cons, ih (by simpa using here)]

section Count

variable {key : List Char} {place : ℕ} {h : Handled}

@[simp] theorem count_key : (count key place h).key = h.key := by
  unfold count
  split <;> rfl

theorem count_of_not (other : ¬ (h.key = key ∧ h.fate = .heldBack)) : count key place h = h :=
  if_neg other

theorem count_of_held (held : h.key = key ∧ h.fate = .heldBack) :
    count key place h = { h with fate := .countedIn place } :=
  if_pos held

theorem count_heldBack (key' : List Char) :
    ((count key place h).key = key' ∧ (count key place h).fate = .heldBack) ↔
      key' ≠ key ∧ h.key = key' ∧ h.fate = .heldBack := by
  by_cases held : h.key = key ∧ h.fate = .heldBack
  · rw [count_of_held held]
    simp only [reduceCtorEq, and_false, false_iff, not_and]
    rintro other rfl
    exact absurd held.1 other
  · rw [count_of_not held]
    refine ⟨fun is => ⟨?_, is⟩, And.right⟩
    rintro rfl
    exact held is

theorem count_countedIn (place' : ℕ) :
    (count key place h).fate = .countedIn place' ↔
      place' = place ∧ h.key = key ∧ h.fate = .heldBack ∨ h.fate = .countedIn place' := by
  by_cases held : h.key = key ∧ h.fate = .heldBack
  · rw [count_of_held held]
    simp [held, eq_comm]
  · rw [count_of_not held]
    simp [held]

end Count

/-!
## The invariant

It is told alert by alert, by the fate that each has had so far.
-/

/-- What a send is about: the alert at its place, under way; and its message says how many are counted
in it. One that was refused twice carries none. -/
structure SendRight (s : AlertsService) (x : Sending) : Prop where
  here : ∃ event, s.handled[x.place]? = some { channel := x.channel, event, fate := .underWay }
  carries : x.outgoing.suppressed = if s.countedAt x.place = 0 then none else some (s.countedAt x.place)
  refused : ∀ result, x.phase = .recording result → result.ok = false → x.outgoing.suppressed = none

/-- The alert at a place will have counted those that are counted in it: it is being sent, or was. -/
def Carries (s : AlertsService) (place : ℕ) (other : Handled) : Prop :=
  (∃ x ∈ s.sends, x.place = place) ∨
    ∃ message, other.fate = .sent message ∧ message.suppressed = some (s.countedAt place)

def FateRight (s : AlertsService) (place : ℕ) (h : Handled) : Prop :=
  match h.fate with
  | .underWay => ∃ x ∈ s.sends, x.place = place
  | .failed recorded => recorded = true
  | .countedIn later =>
    place < later ∧ ∃ other, s.handled[later]? = some other ∧ other.key = h.key ∧ Carries s later other
  | .sent _ | .heldBack => True

structure Inv (s : AlertsService) : Prop where
  counts : ∀ key, s.heldFor key = ((s.sent.get? key).map (·.suppressed)).getD 0
  apart : (s.sends.map (·.place)).Nodup
  sends : ∀ x ∈ s.sends, SendRight s x
  fates : ∀ place h, s.handled[place]? = some h → FateRight s place h
  subscribing : ∀ dispatch event, s.subscribing dispatch = some event → event.suppressed = none

variable {window : ℕ} {s s' : AlertsService}

/-- **What the invariant says of every alert.** -/
theorem Inv.noneLost (inv : Inv s) : s.NoneLost := by
  intro place h here
  have right := inv.fates place h here
  unfold FateRight at right
  split at right
  case h_1 underWay =>
    obtain ⟨x, mem, is⟩ := right
    exact .inl ⟨x, mem, .inl is⟩
  case h_2 recorded failed => exact .inr (.inr (.inl (right ▸ failed)))
  case h_3 later counted =>
    obtain ⟨before, other, there, same, sending | ⟨message, sent, tells⟩⟩ := right
    · obtain ⟨x, mem, is⟩ := sending
      exact .inl ⟨x, mem, .inr (by rw [counted, is])⟩
    · obtain ⟨channel, type, bridge⟩ := keyOf_inj same
      exact .inr (.inr (.inr (.inl
        ⟨later, other, message, before, there, counted, channel, type, bridge, sent, tells⟩)))
  case h_4 message sent => exact .inr (.inl ⟨message, sent⟩)
  case h_5 held =>
    refine .inr (.inr (.inr (.inr ⟨held, fun event => ?_⟩)))
    have some_ : 0 < s.heldFor h.key :=
      List.countP_pos_iff.mpr ⟨h, List.mem_of_getElem? here, by simp [held]⟩
    have counts := inv.counts h.key
    cases found : s.sent.get? h.key with
    | none =>
      rw [found] at counts
      simp [counts] at some_
    | some last =>
      rw [found] at counts
      simp only [Option.map_some, Option.getD_some] at counts
      have nonzero : last.suppressed ≠ 0 := by omega
      simp [outgoingOf, found, nonzero, counts]

theorem Inv.start : Inv {} where
  counts key := rfl
  apart := List.nodup_nil
  sends x mem := by cases mem
  fates place h here := by simp at here
  subscribing dispatch event is := by cases is

/-! ## Steps -/

/-- Nothing that the invariant is about has changed but where the sends stand. -/
theorem Inv.of_sends (inv : Inv s) (g : Sending → Sending) (place : ∀ x, (g x).place = x.place)
    (channel : ∀ x, (g x).channel = x.channel) (outgoing : ∀ x, (g x).outgoing = x.outgoing)
    (refused : ∀ x ∈ s.sends, ∀ result, (g x).phase = .recording result → result.ok = false →
      x.outgoing.suppressed = none) : Inv { s with sends := s.sends.map g } where
  counts := inv.counts
  apart := by
    rw [List.map_map]
    exact (List.map_congr_left fun x _ => place x) ▸ inv.apart
  sends x mem := by
    obtain ⟨y, old, rfl⟩ := List.mem_map.mp mem
    obtain ⟨here, carries, _⟩ := inv.sends y old
    refine ⟨?_, ?_, fun result phase no => ?_⟩
    · rw [place, channel]
      exact here
    · rw [place, outgoing]
      exact carries
    · rw [outgoing]
      exact refused y old result phase no
  fates p h here := by
    have kept : ∀ p, (∃ x ∈ s.sends, x.place = p) → ∃ x ∈ s.sends.map g, x.place = p := by
      rintro p ⟨x, mem, is⟩
      exact ⟨g x, List.mem_map_of_mem mem, by rw [place, is]⟩
    have right := inv.fates p h here
    unfold FateRight at right ⊢
    split at right
    case h_1 underWay => exact kept p right
    case h_2 => exact right
    case h_3 later counted =>
      obtain ⟨before, other, there, same, carries⟩ := right
      exact ⟨before, other, there, same, carries.imp_left (kept later)⟩
    case h_4 => trivial
    case h_5 => trivial
  subscribing := inv.subscribing

/-- A send goes on; one that is refused for the second time carries no count. -/
theorem Inv.goOn (inv : Inv s) {place : ℕ} {phase : SendPhase}
    (refused : ∀ x ∈ s.sends, x.place = place → ∀ result, phase = .recording result →
      result.ok = false → x.outgoing.suppressed = none) : Inv (s.goOn place phase) := by
  refine inv.of_sends _ ?_ ?_ ?_ ?_
  · intro x
    split <;> rfl
  · intro x
    split <;> rfl
  · intro x
    split <;> rfl
  · intro x mem result is no
    split at is
    case isTrue here => exact refused x mem here result is no
    case isFalse => exact (inv.sends x mem).refused result is no

/-- The map of keys goes to one that counts the same. -/
theorem Inv.of_sent (inv : Inv s) {sent : SentMap} {waiting : List ℕ}
    (same : ∀ key, ((sent.get? key).map (·.suppressed)).getD 0 =
      ((s.sent.get? key).map (·.suppressed)).getD 0) :
    Inv { s with sent, waiting } where
  counts key := (inv.counts key).trans (same key).symm
  apart := inv.apart
  sends x mem := ⟨(inv.sends x mem).here, (inv.sends x mem).carries, (inv.sends x mem).refused⟩
  fates := inv.fates
  subscribing := inv.subscribing

/-- …and those that wait for their subscribers go to others that carry no count yet. -/
theorem Inv.of_waiting (inv : Inv s) {subscribing : ℕ → Option AlertEvent} {waiting : List ℕ}
    (fresh : ∀ dispatch event, subscribing dispatch = some event → event.suppressed = none) :
    Inv { s with subscribing, waiting } where
  counts := inv.counts
  apart := inv.apart
  sends x mem := ⟨(inv.sends x mem).here, (inv.sends x mem).carries, (inv.sends x mem).refused⟩
  fates := inv.fates
  subscribing := fresh

theorem get?_forgetPast (sent : SentMap) (now : Int) (key : List Char)
    (idle : sizeLimit < sent.size → ∀ last, sent.get? key = some last →
      last.sentAt < now - window → last.suppressed = 0) :
    (((forgetPast window sent now).get? key).map (·.suppressed)).getD 0 =
      ((sent.get? key).map (·.suppressed)).getD 0 := by
  unfold forgetPast
  split
  case isTrue large =>
    rw [OrderedMap.get?_filter]
    cases found : sent.get? key with
    | none => simp
    | some last =>
      by_cases past : last.sentAt < now - window
      · simp [isPast, found, past, idle large last found past]
      · simp [isPast, found, past]
  case isFalse => rfl

/-! ### A send is over -/

section Finish

variable {x : Sending} {fate : Fate} {place : ℕ}

/-- Neither held back nor counted in another. -/
def Fate.settled : Fate → Bool
  | .sent _ | .failed _ => true
  | .underWay | .heldBack | .countedIn _ => false

theorem heldFor_finish (right : SendRight s x) (settled : fate.settled) (key : List Char) :
    (s.finish x.place fate).heldFor key = s.heldFor key := by
  obtain ⟨event, here⟩ := right.here
  have other : fate ≠ .heldBack := by
    rintro rfl
    cases settled
  exact countP_modify _ _ here (by simp [settle, other])

theorem countedAt_finish (right : SendRight s x) (settled : fate.settled) (place : ℕ) :
    (s.finish x.place fate).countedAt place = s.countedAt place := by
  obtain ⟨event, here⟩ := right.here
  have other : fate ≠ .countedIn place := by
    rintro rfl
    cases settled
  exact countP_modify _ _ here (by simp [settle, other])

theorem handled_finish_own {h : Handled} (here : s.handled[place]? = some h) :
    (s.finish place fate).handled[place]? = some { h with fate } := by
  rw [AlertsService.finish, List.getElem?_modify_eq, here]
  rfl

theorem handled_finish_other (other : place ≠ x.place) :
    (s.finish x.place fate).handled[place]? = s.handled[place]? :=
  List.getElem?_modify_ne _ _ (Ne.symm other)

theorem sends_finish_other (other : place ≠ x.place) (h : ∃ y ∈ s.sends, y.place = place) :
    ∃ y ∈ (s.finish x.place fate).sends, y.place = place := by
  obtain ⟨y, mem, rfl⟩ := h
  exact ⟨y, List.mem_filter.mpr ⟨mem, by simpa using other⟩, rfl⟩

/-- What carries a count carries it on: a message that was refused twice carried none. -/
theorem carries_finish (right : SendRight s x) {result : SendResult} {kept : Bool}
    (phase : x.phase = .recording result)
    (is : fate = if result.ok then .sent x.outgoing else .failed kept) {later : ℕ} {h other : Handled}
    (inIt : h.fate = .countedIn later) (mem : h ∈ s.handled) (there : s.handled[later]? = some other)
    (carries : Carries s later other) :
    ∃ other', (s.finish x.place fate).handled[later]? = some other' ∧ other'.key = other.key ∧
      Carries (s.finish x.place fate) later other' := by
  have settled : fate.settled := by
    rw [is]
    split <;> rfl
  have nonzero : s.countedAt later ≠ 0 := by
    have : 0 < s.countedAt later := List.countP_pos_iff.mpr ⟨h, mem, by simp [inIt]⟩
    omega
  by_cases mine : later = x.place
  · subst mine
    refine ⟨_, handled_finish_own there, rfl, .inr ⟨x.outgoing, ?_, ?_⟩⟩
    · have carried := right.carries
      rw [if_neg nonzero] at carried
      by_cases ok : result.ok
      · simp [is, ok]
      · rw [right.refused result phase (by simpa using ok)] at carried
        cases carried
    · rw [countedAt_finish right settled, right.carries, if_neg nonzero]
  · refine ⟨other, (handled_finish_other mine).trans there, rfl, ?_⟩
    rcases carries with sending | ⟨message, sent, tells⟩
    · exact .inl (sends_finish_other mine sending)
    · exact .inr ⟨message, sent, by rw [countedAt_finish right settled, tells]⟩

theorem Inv.finish (inv : Inv s) {result : SendResult} {kept : Bool} (mem : x ∈ s.sends)
    (phase : x.phase = .recording result) (written : kept = false → result.ok = true)
    (is : fate = if result.ok then .sent x.outgoing else .failed kept) :
    Inv (s.finish x.place fate) := by
  have right := inv.sends x mem
  have settled : fate.settled := by
    rw [is]
    split <;> rfl
  refine
    { counts := fun key => (heldFor_finish right settled key).trans (inv.counts key)
      apart := inv.apart.sublist (List.filter_sublist.map _)
      sends := fun y there => ?_
      fates := fun place h there => ?_
      subscribing := inv.subscribing }
  · obtain ⟨old, other⟩ := List.mem_filter.mp there
    have own := inv.sends y old
    refine ⟨?_, ?_, own.refused⟩
    · rw [handled_finish_other (by simpa using other)]
      exact own.here
    · rw [countedAt_finish right settled]
      exact own.carries
  · by_cases mine : place = x.place
    · subst mine
      obtain ⟨event, here⟩ := right.here
      obtain rfl := Option.some.inj ((handled_finish_own here).symm.trans there)
      unfold FateRight
      simp only [is]
      by_cases ok : result.ok
      · simp [ok]
      · have recorded : kept = true := by
          by_contra no
          exact ok (written (by simpa using no))
        simp [ok, recorded]
    · rw [handled_finish_other mine] at there
      have own := inv.fates place h there
      unfold FateRight at own ⊢
      split at own
      case h_1 underWay => exact sends_finish_other mine own
      case h_2 => exact own
      case h_3 later inIt =>
        obtain ⟨early, other, at_, same, carries⟩ := own
        obtain ⟨other', at', same', carries'⟩ :=
          carries_finish right phase is inIt (List.mem_of_getElem? there) at_ carries
        exact ⟨early, other', at', same'.trans same, carries'⟩
      case h_4 => trivial
      case h_5 => trivial

end Finish

/-! ### An alert for a channel -/

section Notify

variable {dispatch : ℕ} {event : AlertEvent} {channel : StoredChannel} {now : Int}

theorem throttledBy_eq_some {sent : SentMap} {key : List Char} {last : Sent}
    (h : throttledBy window sent key now = some last) : sent.get? key = some last :=
  (Option.filter_eq_some_iff.mp h).1

theorem Inv.counted_before (inv : Inv s) {place : ℕ} {h : Handled} (mem : h ∈ s.handled)
    (inIt : h.fate = .countedIn place) : place < s.handled.length := by
  obtain ⟨p, here⟩ := List.mem_iff_getElem?.mp mem
  have right := inv.fates p h here
  rw [FateRight, inIt] at right
  obtain ⟨_, other, there, _⟩ := right
  exact (List.getElem?_eq_some_iff.mp there).1

theorem Inv.send_before (inv : Inv s) {x : Sending} (mem : x ∈ s.sends) :
    x.place < s.handled.length := by
  obtain ⟨event, here⟩ := (inv.sends x mem).here
  exact (List.getElem?_eq_some_iff.mp here).1

/-- It is held back: one more for its key, and nothing else. -/
theorem Inv.held (inv : Inv s) {last : Sent} (found : s.sent.get? (keyOf channel event) = some last) :
    Inv { s with
      sent := s.sent.set (keyOf channel event) { last with suppressed := last.suppressed + 1 }
      handled := s.handled ++ [{ channel, event, fate := .heldBack }] } := by
  have counted : ∀ place, AlertsService.countedAt { s with
      sent := s.sent.set (keyOf channel event) { last with suppressed := last.suppressed + 1 }
      handled := s.handled ++ [{ channel, event, fate := .heldBack }] } place = s.countedAt place := by
    intro place
    simp [AlertsService.countedAt]
  have kept : ∀ {place h}, s.handled[place]? = some h →
      (s.handled ++ [{ channel, event, fate := .heldBack }])[place]? = some h := fun here => by
    rw [List.getElem?_append_left (List.getElem?_eq_some_iff.mp here).1, here]
  refine
    { counts := fun key => ?_
      apart := inv.apart
      sends := fun x mem => ?_
      fates := fun place h here => ?_
      subscribing := inv.subscribing }
  · have before := inv.counts key
    rw [AlertsService.heldFor, List.countP_append, OrderedMap.get?_set]
    by_cases mine : key = keyOf channel event
    · subst mine
      rw [found] at before
      rw [if_pos rfl]
      simpa [AlertsService.heldFor, List.countP_cons, Handled.key] using before
    · rw [if_neg mine, ← before]
      simp [AlertsService.heldFor, Handled.key, Ne.symm mine]
  · have own := inv.sends x mem
    obtain ⟨e, here⟩ := own.here
    exact ⟨⟨e, kept here⟩, by rw [counted]; exact own.carries, own.refused⟩
  · by_cases old : place < s.handled.length
    · rw [List.getElem?_append_left old] at here
      have right := inv.fates place h here
      unfold FateRight at right ⊢
      split at right
      case h_1 underWay => exact right
      case h_2 => exact right
      case h_3 later inIt =>
        obtain ⟨early, other, there, same, sending | ⟨message, sent, tells⟩⟩ := right
        · exact ⟨early, other, kept there, same, .inl sending⟩
        · exact ⟨early, other, kept there, same, .inr ⟨message, sent, by rw [counted, tells]⟩⟩
      case h_4 => trivial
      case h_5 => trivial
    · rw [List.getElem?_append_right (Nat.le_of_not_lt old)] at here
      obtain rfl : { channel, event, fate := .heldBack } = h :=
        List.mem_singleton.mp (List.mem_of_getElem? here) |>.symm
      trivial

/-- The state after an alert has been let out: its message takes the count for its key along. -/
def letOut (dispatch : ℕ) (event : AlertEvent) (s : AlertsService) (channel : StoredChannel)
    (now : Int) : AlertsService :=
  { s with
    sent := s.sent.set (keyOf channel event) { sentAt := now, suppressed := 0 }
    sends := s.sends ++
      [{ dispatch, channel, outgoing := outgoingOf s.sent (keyOf channel event) event,
         phase := .trying, place := s.handled.length }]
    handled := s.handled.map (count (keyOf channel event) s.handled.length) ++
      [{ channel, event, fate := .underWay }] }

theorem notify_of_throttled {last : Sent}
    (h : throttledBy window s.sent (keyOf channel event) now = some last) :
    notify window dispatch event s channel now =
      { s with
        sent := s.sent.set (keyOf channel event) { last with suppressed := last.suppressed + 1 }
        handled := s.handled ++ [{ channel, event, fate := .heldBack }] } := by
  simp only [notify, h]

theorem notify_of_not_throttled (h : throttledBy window s.sent (keyOf channel event) now = none) :
    notify window dispatch event s channel now = letOut dispatch event s channel now := by
  simp only [notify, h, letOut]

theorem handled_letOut_old {place : ℕ} {h : Handled} (here : s.handled[place]? = some h) :
    (letOut dispatch event s channel now).handled[place]? =
      some (count (keyOf channel event) s.handled.length h) := by
  rw [letOut, List.getElem?_append_left (by simpa using (List.getElem?_eq_some_iff.mp here).1),
    List.getElem?_map, here]
  rfl

theorem handled_letOut_new :
    (letOut dispatch event s channel now).handled[s.handled.length]? =
      some { channel, event, fate := .underWay } := by
  rw [letOut, List.getElem?_append_right (by simp)]
  simp

theorem heldFor_letOut (key : List Char) :
    (letOut dispatch event s channel now).heldFor key =
      if key = keyOf channel event then 0 else s.heldFor key := by
  rw [AlertsService.heldFor, letOut, List.countP_append, List.countP_map]
  simp only [Function.comp_def, count_heldBack]
  by_cases mine : key = keyOf channel event
  · simp [mine]
  · simp [mine, AlertsService.heldFor]

theorem countedAt_letOut_old {place : ℕ} (old : place ≠ s.handled.length) :
    (letOut dispatch event s channel now).countedAt place = s.countedAt place := by
  rw [AlertsService.countedAt, letOut, List.countP_append, List.countP_map]
  simp only [Function.comp_def, count_countedIn]
  simp [old, AlertsService.countedAt]

theorem countedAt_letOut_new (inv : Inv s) :
    (letOut dispatch event s channel now).countedAt s.handled.length =
      s.heldFor (keyOf channel event) := by
  rw [AlertsService.countedAt, letOut, List.countP_append, List.countP_map]
  have none_ : ∀ h ∈ s.handled, h.fate ≠ .countedIn s.handled.length := fun h mem is =>
    Nat.lt_irrefl _ (inv.counted_before mem is)
  have same : s.handled.countP ((fun h => decide (h.fate = .countedIn s.handled.length)) ∘
      count (keyOf channel event) s.handled.length) = s.heldFor (keyOf channel event) := by
    refine List.countP_congr fun h mem => ?_
    simp [count_countedIn, none_ h mem]
  rw [same]
  simp

theorem sends_letOut {place : ℕ} (h : ∃ x ∈ s.sends, x.place = place) :
    ∃ x ∈ (letOut dispatch event s channel now).sends, x.place = place := by
  obtain ⟨x, mem, is⟩ := h
  exact ⟨x, List.mem_append_left _ mem, is⟩

theorem Inv.letOut (inv : Inv s) (fresh : event.suppressed = none) :
    Inv (letOut dispatch event s channel now) := by
  refine
    { counts := fun key => ?_
      apart := ?_
      sends := fun x mem => ?_
      fates := fun place h here => ?_
      subscribing := inv.subscribing }
  · rw [heldFor_letOut, Alerts.letOut, OrderedMap.get?_set]
    by_cases mine : key = keyOf channel event
    · simp [mine]
    · simpa [mine] using inv.counts key
  · rw [Alerts.letOut, List.map_append, List.nodup_append]
    refine ⟨inv.apart, List.nodup_singleton _, ?_⟩
    intro p mem q new
    obtain ⟨x, there, rfl⟩ := List.mem_map.mp mem
    obtain rfl := List.mem_singleton.mp new
    exact Nat.ne_of_lt (inv.send_before there)
  · rcases List.mem_append.mp mem with old | new
    · have own := inv.sends x old
      obtain ⟨e, here⟩ := own.here
      refine ⟨⟨e, (handled_letOut_old here).trans ?_⟩, ?_, own.refused⟩
      · exact congrArg some (count_of_not (by simp))
      · rw [countedAt_letOut_old (Nat.ne_of_lt (inv.send_before old))]
        exact own.carries
    · obtain rfl := List.mem_singleton.mp new
      refine ⟨⟨event, handled_letOut_new⟩, ?_, fun result is => by cases is⟩
      have counts := inv.counts (keyOf channel event)
      rw [countedAt_letOut_new inv, counts]
      cases found : s.sent.get? (keyOf channel event) with
      | none => simp [outgoingOf, found, fresh]
      | some last =>
        by_cases zero : last.suppressed = 0
        · simp [outgoingOf, found, zero, fresh]
        · simp [outgoingOf, found, zero]
  · by_cases old : place < s.handled.length
    · obtain ⟨before, was⟩ : ∃ before, s.handled[place]? = some before :=
        ⟨_, List.getElem?_eq_getElem old⟩
      obtain rfl := Option.some.inj ((handled_letOut_old was).symm.trans here)
      by_cases held : before.key = keyOf channel event ∧ before.fate = .heldBack
      · -- it goes into the message of this one
        rw [count_of_held held]
        exact ⟨old, _, handled_letOut_new, held.1.symm, .inl
          ⟨_, List.mem_append_right _ (List.mem_singleton_self _), rfl⟩⟩
      · rw [count_of_not held]
        have right := inv.fates place before was
        unfold FateRight at right ⊢
        split at right
        case h_1 underWay => exact sends_letOut right
        case h_2 => exact right
        case h_3 later inIt =>
          obtain ⟨early, other, there, same, carries⟩ := right
          refine ⟨early, _, handled_letOut_old there, count_key.trans same, ?_⟩
          rcases carries with sending | ⟨message, sent, tells⟩
          · exact .inl (sends_letOut sending)
          · refine .inr ⟨message, ?_, ?_⟩
            · rw [count_of_not (by simp [sent])]
              exact sent
            · rw [countedAt_letOut_old
                (Nat.ne_of_lt (List.getElem?_eq_some_iff.mp there).1)]
              exact tells
        case h_4 => trivial
        case h_5 => trivial
    · have last : place = s.handled.length := by
        have within := (List.getElem?_eq_some_iff.mp here).1
        simp only [Alerts.letOut, List.length_append, List.length_map, List.length_singleton] at within
        omega
      subst last
      obtain rfl := Option.some.inj (handled_letOut_new.symm.trans here)
      exact ⟨_, List.mem_append_right _ (List.mem_singleton_self _), rfl⟩

theorem Inv.notify (inv : Inv s) (fresh : event.suppressed = none) :
    Inv (notify window dispatch event s channel now) := by
  cases throttled : throttledBy window s.sent (keyOf channel event) now with
  | some last =>
    rw [notify_of_throttled throttled]
    exact inv.held (throttledBy_eq_some throttled)
  | none =>
    rw [notify_of_not_throttled throttled]
    exact inv.letOut fresh

/-- A dispatch goes through its channels. -/
theorem Inv.notifyAll (fresh : event.suppressed = none) (channels : List (StoredChannel × Int))
    (inv : Inv s) :
    Inv (channels.foldl (fun s c => Alerts.notify window dispatch event s c.1 c.2) s) := by
  induction channels generalizing s with
  | nil => exact inv
  | cons c channels ih => exact ih (inv.notify fresh)

end Notify

/-!
## Runs

Sends go on side by side; what ends one is its own.
-/

theorem sending_eq_some {x : Sending} {place : ℕ} (h : s.sending place = some x) :
    x ∈ s.sends ∧ x.place = place :=
  ⟨List.mem_of_find?_eq_some h, by simpa using List.find?_some h⟩

/-- **A step keeps the invariant** if it is one that loses nothing. -/
theorem Inv.step (inv : Inv s) {e : AlertStep} (allowed : gentle window s e)
    (move : Alerts.step window s e = some s') : Inv s' := by
  cases e with
  | emit dispatch input emittedAt =>
    simp only [Alerts.step] at move
    split at move
    · cases move
    · split at move
      · obtain rfl := Option.some.inj move
        exact inv
      · obtain rfl := Option.some.inj move
        apply inv.of_waiting
        intro d event is
        split at is
        · obtain rfl := Option.some.inj is
          rfl
        · exact inv.subscribing d event is
  | subscribers dispatch channels =>
    obtain ⟨event, waits, rfl⟩ := Option.map_eq_some_iff.mp move
    have fresh := inv.subscribing dispatch event waits
    have rest : ∀ waiting, Inv { s with
        subscribing := fun d => if d = dispatch then none else s.subscribing d
        waiting } := by
      intro waiting
      apply inv.of_waiting
      intro d e is
      split at is
      · cases is
      · exact inv.subscribing d e is
    cases channels with
    | none => exact rest s.waiting
    | some channels => exact Inv.notifyAll fresh channels (rest _)
  | answered place result =>
    obtain ⟨x, found, move⟩ := Option.bind_eq_some_iff.mp move
    obtain ⟨mem, rfl⟩ := sending_eq_some found
    have only : ∀ y ∈ s.sends, y.place = x.place → y = x := fun y there same =>
      List.inj_on_of_nodup_map inv.apart there mem same
    split at move
    case h_1 trying =>
      obtain rfl := Option.some.inj move
      apply inv.goOn
      intro y there same result' phase no
      by_cases ok : result.ok
      · rw [if_pos ok] at phase
        cases phase
        exact absurd ok (by simp [no])
      · rw [if_neg ok] at phase
        cases phase
    case h_2 retrying =>
      obtain rfl := Option.some.inj move
      apply inv.goOn
      intro y there same result' phase no
      cases phase
      rw [only y there same]
      exact allowed no x found retrying
    case h_3 => cases move
  | paused place =>
    obtain ⟨x, found, move⟩ := Option.bind_eq_some_iff.mp move
    split at move
    · obtain rfl := Option.some.inj move
      apply inv.goOn
      intro y there same result phase no
      cases phase
    · cases move
  | recorded place kept =>
    obtain ⟨x, found, move⟩ := Option.bind_eq_some_iff.mp move
    obtain ⟨mem, rfl⟩ := sending_eq_some found
    split at move
    case h_1 result phase =>
      obtain rfl := Option.some.inj move
      exact inv.finish mem phase (fun lost => allowed lost x result found phase) rfl
    case h_2 => cases move
  | settled dispatch now =>
    simp only [Alerts.step] at move
    split at move
    · obtain rfl := Option.some.inj move
      apply inv.of_sent
      intro key
      apply get?_forgetPast
      intro large last found past
      exact allowed large key last found past
    · cases move

/-- Alerts of any kinds, to any channels, at any times, overlapping at every await: in a run in which
no message that carries a count is refused twice, every failed send is recorded and no count is
forgotten with its key, each alert has left its trace in every state. -/
theorem accounted_of_gentle {es : List AlertStep} (run : Run (step window) (gentle window) {} es s) :
    s.NoneLost := by
  have inv : Inv s := by
    apply run.invariant Inv.start
    intro s e s' allowed inv move
    exact inv.step allowed move
  exact inv.noneLost

namespace OneChannel

theorem plain : '|' ∉ "6f1c".toList := by decide

/-- A Slack channel. -/
def ops : StoredChannel := { id := "6f1c".toList, name := "ops", uuid := plain }

def stopped : AlertInput :=
  { type := .bridgeFailed, severity := .critical, title := "orders stopped"
    message := "connection refused", bridgeId := some "b1", bridgeName := some "orders" }

def taken : SendResult := { ok := true, detail := "" }

def refused : SendResult := { ok := false, detail := "HTTP 503" }

/-- The bridge stops three times: at once, after a second, and after five minutes. The second is held
back. -/
def stops : List AlertStep :=
  [.emit 0 stopped "t0", .subscribers 0 (some [(ops, 0)]), .answered 0 taken, .recorded 0 true,
   .emit 1 stopped "t1", .subscribers 1 (some [(ops, 1000)]),
   .emit 2 stopped "t2", .subscribers 2 (some [(ops, 301000)])]

/-- …and Slack takes the third. -/
def takes : List AlertStep := stops ++ [.answered 2 taken, .recorded 2 true]

/-- …and Slack is down at the third, and for the second try too. -/
def isDown : List AlertStep :=
  stops ++ [.answered 2 refused, .paused 2, .answered 2 refused, .recorded 2 true]

/-- **The third alert took the second along, and nothing says that there was one.** -/
theorem second_lost : ∃ s, Run (step 300000) anyStep {} isDown s ∧ ¬ s.NoneLost := by
  obtain ⟨s, ran, ended, here, later⟩ : ∃ s, runEvents (step 300000) {} isDown = some s ∧ s.sends = [] ∧
      (s.handled[1]?).map (·.fate) = some (.countedIn 2) ∧
      (s.handled[2]?).map (·.fate) = some (.failed true) := ⟨_, rfl, rfl, rfl, rfl⟩
  refine ⟨s, run_of_eval ran, ?_⟩
  intro none_
  obtain ⟨h, at_, counted⟩ := Option.map_eq_some_iff.mp here
  obtain ⟨third, there, failed⟩ := Option.map_eq_some_iff.mp later
  rcases none_ 1 h at_ with ⟨x, mem, _⟩ | ⟨message, sent⟩ | recorded | counts | held
  · rw [ended] at mem
    cases mem
  · rw [counted] at sent
    cases sent
  · rw [counted] at recorded
    cases recorded
  · obtain ⟨place, other, message, _, is, inIt, _, _, _, sent, _⟩ := counts
    rw [counted] at inIt
    cases inIt
    rw [there] at is
    cases is
    rw [failed] at sent
    cases sent
  · rw [AlertsService.StillCounted, counted] at held
    cases held.1

/-- When Slack takes it, it says that one was held back. -/
theorem taken_accounted : ∃ s, Run (step 300000) (gentle 300000) {} takes s ∧ s.NoneLost := by
  obtain ⟨s, ran⟩ : ∃ s, runEvents (step 300000) {} takes = some s := ⟨_, rfl⟩
  have run : Run (step 300000) (gentle 300000) {} takes s := by
    apply (run_of_eval ran).of_events
    intro e mem s
    simp only [takes, stops, List.cons_append, List.nil_append, List.mem_cons, List.not_mem_nil,
      or_false] at mem
    rcases mem with rfl | rfl | rfl | rfl | rfl | rfl | rfl | rfl | rfl | rfl <;>
      simp [gentle, taken]
  exact ⟨s, run, accounted_of_gentle run⟩

end OneChannel

end Syncle.Alerts
