import Mathlib.Data.Nat.Basic
import Syncle.Lib.Replay

/-!
# Catching up with a log

A keyed state is brought level with a log that is written all the time: by values read from what
the log has come to so far, and by the log's own writes from a position on. `Settled ws d n seen`
says how far that is: at the keys no write touches from position `n` on, `d` holds what the log
comes to, as far as it has been `seen`. It says so of each key on its own (`SettledAt`).

The position may always be set back, and less be claimed to have been seen (`Settled.mono`);
the log may grow (`Settled.grow`); a write that is right about the untouched keys may be applied
(`Settled.put`); and applying the write at the position moves it (`Settled.advance`).
-/

namespace Syncle.Lib

variable {K V : Type*} {ws vs : List (Write K V)} {k : K} {m n : Nat}

def Untouched (ws : List (Write K V)) (n : Nat) (k : K) : Prop := ∀ w ∈ ws.drop n, ¬ w.touches k

theorem Untouched.mono (h : Untouched ws m k) (hmn : m ≤ n) : Untouched ws n k := by
  intro w hw
  have : ws.drop n = (ws.drop m).drop (n - m) := by
    rw [List.drop_drop, Nat.add_sub_cancel' hmn]
  exact h w (List.mem_of_mem_drop (this ▸ hw))

theorem Untouched.of_append (h : Untouched (ws ++ vs) n k) : Untouched ws n k := by
  intro w hw
  apply h
  rw [List.drop_append]
  exact List.mem_append_left _ hw

theorem Untouched.append (h : Untouched ws n k) (hvs : ∀ w ∈ vs, ¬ w.touches k) :
    Untouched (ws ++ vs) n k := by
  intro w hw
  rw [List.drop_append] at hw
  rcases List.mem_append.mp hw with hw | hw
  · exact h w hw
  · exact hvs w (List.mem_of_mem_drop hw)

theorem Untouched.of_append_right (h : Untouched (ws ++ vs) n k) (hn : n ≤ ws.length) :
    ∀ w ∈ vs, ¬ w.touches k := by
  intro w hw
  apply h
  rw [List.drop_append, Nat.sub_eq_zero_of_le hn, List.drop_zero]
  exact List.mem_append_right _ hw

theorem not_untouched_of_getElem? {w : Write K V} (hw : ws[n]? = some w) (hmn : m ≤ n)
    (ht : w.touches k) : ¬ Untouched ws m k := by
  intro h
  apply h.mono hmn w _ ht
  obtain ⟨hn, rfl⟩ := List.getElem?_eq_some_iff.mp hw
  rw [List.drop_eq_getElem_cons hn]
  exact List.mem_cons_self

theorem Untouched.of_succ {w : Write K V} (h : Untouched ws (n + 1) k) (hw : ws[n]? = some w)
    (ht : ¬ w.touches k) : Untouched ws n k := by
  obtain ⟨hn, rfl⟩ := List.getElem?_eq_some_iff.mp hw
  intro v hv
  rw [List.drop_eq_getElem_cons hn] at hv
  rcases List.mem_cons.mp hv with rfl | hv
  · exact ht
  · exact h v hv

variable [DecidableEq K]

instance (ws : List (Write K V)) (n : Nat) (k : K) : Decidable (Untouched ws n k) := by
  unfold Untouched
  infer_instance

/-- The last write of a key decides it. -/
theorem replay_of_untouched {w : Write K V} (hw : ws[n]? = some w) (ht : w.touches k)
    (h : Untouched ws (n + 1) k) : replay (fun _ => none) ws k = w.image := by
  obtain ⟨hn, hwn⟩ := List.getElem?_eq_some_iff.mp hw
  have tail : ws.drop n = w :: ws.drop (n + 1) := by rw [List.drop_eq_getElem_cons hn, hwn]
  have whole : ws.take n ++ w :: ws.drop (n + 1) = ws := by rw [← tail, List.take_append_drop]
  rw [← whole]
  exact replay_of_last ht h _ _

/-- What the log comes to at a key stays as it is while the key is not written. -/
theorem replay_of_untouched_append (h : Untouched (ws ++ vs) n k) (hn : n ≤ ws.length) :
    replay (fun _ => none) (ws ++ vs) k = replay (fun _ => none) ws k := by
  rw [replay_append, replay_untouched (h.of_append_right hn)]

/-- One key, of which nothing has been written since position `n`, holds what the log comes to, as
far as that has been seen. -/
structure SettledAt (ws : List (Write K V)) (d : K → Option V) (n : Nat) (seen : K → V → Prop)
    (k : K) : Prop where
  same : ∀ v, Untouched ws n k → replay (fun _ => none) ws k = some v → seen k v → d k = some v
  gone : Untouched ws n k → replay (fun _ => none) ws k = none → d k = none

/-- Everything has been seen. -/
abbrev allSeen (_ : K) (_ : V) : Prop := True

namespace SettledAt

variable {d : K → Option V} {seen seen' : K → V → Prop} {w : Write K V}

theorem mono (h : SettledAt ws d n seen k) (hmn : m ≤ n)
    (hseen : ∀ v, Untouched ws m k → replay (fun _ => none) ws k = some v →
      seen' k v → seen k v) : SettledAt ws d m seen' k where
  same v hk hv hs := h.same v (hk.mono hmn) hv (hseen v hk hv hs)
  gone hk hv := h.gone (hk.mono hmn) hv

/-- Of a key that is untouched since `m` whenever it is since `n`. -/
theorem shift (h : SettledAt ws d m seen k) (hk : Untouched ws n k → Untouched ws m k) :
    SettledAt ws d n seen k where
  same v hn hv hs := h.same v (hk hn) hv hs
  gone hn hv := h.gone (hk hn) hv

theorem narrow (h : SettledAt ws d n seen k) (hseen : ∀ v, seen' k v → seen k v) :
    SettledAt ws d n seen' k :=
  h.mono le_rfl fun v _ _ => hseen v

theorem grow (h : SettledAt ws d n seen k) (hn : n ≤ ws.length) (vs : List (Write K V)) :
    SettledAt (ws ++ vs) d n seen k where
  same v hk hv := h.same v hk.of_append (replay_of_untouched_append hk hn ▸ hv)
  gone hk hv := h.gone hk.of_append (replay_of_untouched_append hk hn ▸ hv)

/-- A write that leaves at the key what the log comes to. -/
theorem of_image (hd : Untouched ws n k → d k = replay (fun _ => none) ws k) :
    SettledAt ws d n seen k where
  same _ hk hv _ := (hd hk).trans hv
  gone hk hv := (hd hk).trans hv

/-- **A write that is right about an untouched key.** The key counts as seen. -/
theorem put (h : SettledAt ws d n seen k)
    (right : w.touches k → Untouched ws n k → replay (fun _ => none) ws k = w.image) :
    SettledAt ws (w.apply d) n (fun k v => seen k v ∨ w.touches k) k := by
  constructor
  · intro v hk hv hs
    by_cases ht : w.touches k
    · rw [Write.apply_of_touches ht, ← right ht hk, hv]
    · rw [Write.apply_of_not_touches ht]
      exact h.same v hk hv (hs.resolve_right ht)
  · intro hk hv
    by_cases ht : w.touches k
    · rw [Write.apply_of_touches ht, ← right ht hk, hv]
    · rw [Write.apply_of_not_touches ht]
      exact h.gone hk hv

/-- **The write at the position moves it.** -/
theorem advance (h : SettledAt ws d n allSeen k) (hw : ws[n]? = some w) :
    SettledAt ws (w.apply d) (n + 1) allSeen k := by
  by_cases ht : w.touches k
  · apply of_image
    intro hk
    rw [replay_of_untouched hw ht hk, Write.apply_of_touches ht]
  · have kept : w.apply d k = d k := Write.apply_of_not_touches ht d
    constructor
    · intro v hk hv hs
      rw [kept]
      exact h.same v (hk.of_succ hw ht) hv hs
    · intro hk hv
      rw [kept]
      exact h.gone (hk.of_succ hw ht) hv

end SettledAt

def Settled (ws : List (Write K V)) (d : K → Option V) (n : Nat) (seen : K → V → Prop) : Prop :=
  ∀ k, SettledAt ws d n seen k

namespace Settled

variable {d : K → Option V} {seen seen' : K → V → Prop} {w : Write K V}

theorem empty (ws : List (Write K V)) (n : Nat) :
    Settled ws (fun _ => none) n fun _ _ => False := by
  intro k
  exact ⟨fun _ _ _ hs => hs.elim, fun _ _ => rfl⟩

theorem mono (h : Settled ws d n seen) (hmn : m ≤ n)
    (hseen : ∀ k v, Untouched ws m k → replay (fun _ => none) ws k = some v →
      seen' k v → seen k v) : Settled ws d m seen' :=
  fun k => (h k).mono hmn (hseen k)

theorem narrow (h : Settled ws d n seen) (hseen : ∀ k v, seen' k v → seen k v) :
    Settled ws d n seen' :=
  h.mono le_rfl fun k v _ _ => hseen k v

theorem grow (h : Settled ws d n seen) (hn : n ≤ ws.length) (vs : List (Write K V)) :
    Settled (ws ++ vs) d n seen :=
  fun k => (h k).grow hn vs

theorem put (h : Settled ws d n seen)
    (right : ∀ k, w.touches k → Untouched ws n k → replay (fun _ => none) ws k = w.image) :
    Settled ws (w.apply d) n fun k v => seen k v ∨ w.touches k :=
  fun k => (h k).put (right k)

theorem advance (h : Settled ws d n allSeen) (hw : ws[n]? = some w) :
    Settled ws (w.apply d) (n + 1) allSeen :=
  fun k => (h k).advance hw

/-- At the end of the log, the state is what the log comes to. -/
theorem level (h : Settled ws d ws.length allSeen) : d = replay (fun _ => none) ws := by
  funext k
  have hk : Untouched ws ws.length k := by simp [Untouched]
  cases hv : replay (fun _ => none) ws k with
  | none => exact (h k).gone hk hv
  | some v => exact (h k).same v hk hv trivial

end Settled

end Syncle.Lib
