import XCalls.Core.Sentinel

/-!
# Accounting of sentinel references and mutexes

`Accounted m refs held`: the reference count of every sentinel out of the pool is `refs`, the pool
holds the sentinels without references, and the transaction `t` holds the mutex of `s` exactly if
`held t s = 1`.  One lemma for each operation of the manager says how `refs` and `held` move;
`Accounted.release` is the loop of `sentinel_list_release`.
-/

namespace XCalls
variable {T : Type} [DecidableEq T] {n : Nat}

structure Accounted (m : SentinelMgr T n) (refs : Fin n → Nat) (held : T → Fin n → Nat) :
    Prop where
  refcnt : ∀ s, s ∉ m.free → (m.sentinel s).refcnt = refs s
  free_iff : ∀ s, s ∈ m.free ↔ refs s = 0
  nodup : m.free.Nodup
  owner : ∀ s, (m.sentinel s).owner = (m.sentinel s).mutex
  held_eq : ∀ t s, held t s = if (m.sentinel s).mutex = some t then 1 else 0
  held_le : ∀ t s, held t s ≤ refs s
  ids : ∀ s, (m.sentinel s).id = s.val

theorem accounted_sentinelmgrCreate :
    Accounted (sentinelmgrCreate T n) (fun _ => 0) (fun _ _ => 0) where
  refcnt s hs := absurd (free_sentinelmgrCreate s) hs
  free_iff s := iff_of_true (free_sentinelmgrCreate s) rfl
  nodup := poolWalk_nodup _ _
  owner s := by rw [sentinel_sentinelmgrCreate]
  held_eq t s := by rw [sentinel_sentinelmgrCreate]; rfl
  held_le _ _ := Nat.le_refl _
  ids s := by rw [sentinel_sentinelmgrCreate]

namespace Accounted
variable {m m' : SentinelMgr T n} {refs refs' : Fin n → Nat} {held held' : T → Fin n → Nat}

theorem mutex_none (h : Accounted m refs held) {s : Fin n} (hs : ∀ t, held t s = 0) :
    (m.sentinel s).mutex = none := by
  cases hm : (m.sentinel s).mutex with
  | none => rfl
  | some t =>
    have h1 := h.held_eq t s
    rw [if_pos hm, hs t] at h1
    cases h1

theorem free_mutex (h : Accounted m refs held) {s : Fin n} (hs : s ∈ m.free) :
    (m.sentinel s).mutex = none := by
  refine h.mutex_none fun t => ?_
  have h0 := (h.free_iff s).mp hs
  have h1 := h.held_le t s
  omega

theorem mutex_of_held (h : Accounted m refs held) {t : T} {s : Fin n} (hs : 0 < held t s) :
    (m.sentinel s).mutex = some t := by
  have h1 := h.held_eq t s
  by_cases hm : (m.sentinel s).mutex = some t
  · exact hm
  · rw [if_neg hm] at h1
    omega

theorem congr (h : Accounted m refs held) (hr : ∀ s, refs' s = refs s)
    (hh : ∀ t s, held' t s = held t s) : Accounted m refs' held' := by
  obtain rfl : refs' = refs := funext hr
  obtain rfl : held' = held := funext fun t => funext (hh t)
  exact h

theorem recount (h : Accounted m refs held)
    (hsame : ∀ x, ∃ c, m'.sentinel x = { m.sentinel x with refcnt := c })
    (hcnt : ∀ x, x ∉ m'.free → (m'.sentinel x).refcnt = refs' x)
    (hfree : ∀ x, x ∈ m'.free ↔ refs' x = 0) (hnodup : m'.free.Nodup)
    (hle : ∀ t x, held t x ≤ refs' x) : Accounted m' refs' held := by
  refine ⟨hcnt, hfree, hnodup, fun x => ?_, fun t x => ?_, hle, fun x => ?_⟩
  all_goals obtain ⟨c, hc⟩ := hsame x; rw [hc]
  · exact h.owner x
  · exact h.held_eq t x
  · exact h.ids x

theorem attach (h : Accounted m refs held) {s : Fin n} (hs : s ∉ m.free)
    (hr : ∀ x, refs' x = refs x + if x = s then 1 else 0) :
    Accounted (sentinelAttach m s) refs' held := by
  have hpos : refs s ≠ 0 := fun hc => hs ((h.free_iff s).mpr hc)
  have hsent := m.set_sentinel s { m.sentinel s with refcnt := (m.sentinel s).refcnt + 1 }
  refine h.recount (fun x => ?_) (fun x hx => ?_) (fun x => ?_) h.nodup (fun t x => ?_)
  · rw [sentinelAttach, hsent]
    split
    · rename_i hxs; subst hxs; exact ⟨_, rfl⟩
    · exact ⟨_, rfl⟩
  · rw [sentinelAttach, hsent, hr]
    by_cases hxs : x = s
    · subst hxs
      rw [if_pos rfl, if_pos rfl]
      show (m.sentinel x).refcnt + 1 = _
      rw [h.refcnt x hs]
      rfl
    · rw [if_neg hxs, if_neg hxs]
      exact h.refcnt x hx
  · show x ∈ m.free ↔ _
    rw [h.free_iff, hr]
    by_cases hxs : x = s
    · subst hxs
      rw [if_pos rfl]
      omega
    · rw [if_neg hxs, Nat.add_zero]
  · have := h.held_le t x
    rw [hr]
    omega

theorem detach (h : Accounted m refs held) {s : Fin n}
    (hr : ∀ x, refs x = refs' x + if x = s then 1 else 0) (hle : ∀ t x, held t x ≤ refs' x) :
    Accounted (sentinelDetach m s) refs' held := by
  have hs : refs s = refs' s + 1 := by rw [hr, if_pos rfl]
  have hfree : s ∉ m.free := fun hc => by
    have := (h.free_iff s).mp hc
    omega
  have hcnt : (m.sentinel s).refcnt - 1 = refs' s := by
    rw [h.refcnt s hfree, hs]
    omega
  have hsent : ∀ x, (sentinelDetach m s).sentinel x
      = if x = s then { m.sentinel s with refcnt := refs' s } else m.sentinel x := by
    intro x
    rw [← SentinelMgr.set_sentinel, ← hcnt]
    unfold sentinelDetach
    split <;> rfl
  have hdet : (sentinelDetach m s).free = if refs' s = 0 then s :: m.free else m.free := by
    unfold sentinelDetach
    rw [hcnt]
    by_cases h0 : refs' s = 0
    · rw [if_pos h0, if_pos (by rw [h0]; rfl)]
      rfl
    · rw [if_neg h0, if_neg (by omega)]
      rfl
  have hmem : ∀ x, x ∈ (sentinelDetach m s).free ↔ x ∈ m.free ∨ (x = s ∧ refs' s = 0) := by
    intro x
    rw [hdet]
    by_cases h0 : refs' s = 0
    · rw [if_pos h0, List.mem_cons]
      simp [h0, or_comm]
    · rw [if_neg h0]
      simp [h0]
  refine h.recount (fun x => ?_) (fun x hx => ?_) (fun x => ?_) ?_ hle
  · rw [hsent]
    split
    · rename_i hxs; subst hxs; exact ⟨_, rfl⟩
    · exact ⟨_, rfl⟩
  · rw [hsent]
    by_cases hxs : x = s
    · subst hxs
      rw [if_pos rfl]
    · rw [if_neg hxs, h.refcnt x fun hc => hx ((hmem x).mpr (Or.inl hc)), hr, if_neg hxs]
      rfl
  · rw [hmem, h.free_iff, hr]
    by_cases hxs : x = s
    · subst hxs
      rw [if_pos rfl]
      omega
    · rw [if_neg hxs]
      simp [hxs]
  · rw [hdet]
    split
    · exact List.nodup_cons.mpr ⟨hfree, h.nodup⟩
    · exact h.nodup

/-- a new sentinel has one reference, that of its KOA -/
theorem create (h : Accounted m refs held) {s : Fin n} (hc : sentinelCreate m = some (s, m'))
    (hr : ∀ x, refs' x = refs x + if x = s then 1 else 0) : Accounted m' refs' held := by
  unfold sentinelCreate at hc
  cases hf : m.free with
  | nil => rw [hf] at hc; cases hc
  | cons s' rest =>
    rw [hf] at hc
    simp only [Option.some.injEq, Prod.mk.injEq] at hc
    obtain ⟨rfl, rfl⟩ := hc
    have hin : s' ∈ m.free := by rw [hf]; exact List.mem_cons_self
    have hzero := (h.free_iff s').mp hin
    have hmx := h.free_mutex hin
    have hnd := h.nodup
    rw [hf, List.nodup_cons] at hnd
    have hsent := m.set_sentinel s' { m.sentinel s' with owner := none, refcnt := 1 }
    have hown : (m.sentinel s').owner = none := by rw [h.owner, hmx]
    rw [← hown] at hsent
    refine h.recount (fun x => ?_) (fun x hx => ?_) (fun x => ?_) hnd.2 (fun t x => ?_)
    · rw [← hown]
      show ∃ c, (m.set s' _).sentinel x = _
      rw [hsent]
      split
      · rename_i hxs; subst hxs; exact ⟨_, rfl⟩
      · exact ⟨_, rfl⟩
    · rw [← hown]
      show ((m.set s' _).sentinel x).refcnt = _
      rw [hsent, hr]
      by_cases hxs : x = s'
      · subst hxs
        rw [if_pos rfl, if_pos rfl, hzero]
        rfl
      · rw [if_neg hxs, if_neg hxs]
        exact h.refcnt x (by rw [hf, List.mem_cons]; exact not_or.mpr ⟨hxs, hx⟩)
    · show x ∈ rest ↔ _
      rw [hr]
      by_cases hxs : x = s'
      · subst hxs
        rw [if_pos rfl]
        exact iff_of_false hnd.1 (by omega)
      · rw [if_neg hxs, Nat.add_zero, ← h.free_iff, hf, List.mem_cons, or_iff_right hxs]
    · have := h.held_le t x
      rw [hr]
      omega

/-! ## mutexes -/

/-- a change of the mutex of `s`, for `held` of `s` -/
theorem remutex (h : Accounted m refs held) (s : Fin n) (v : Option T)
    (hs : ∀ t, held' t s = if v = some t then 1 else 0)
    (ho : ∀ t x, x ≠ s → held' t x = held t x) (hle : ∀ t, held' t s ≤ refs s) :
    Accounted (m.set s { m.sentinel s with mutex := v, owner := v }) refs held' := by
  have hsent := m.set_sentinel s { m.sentinel s with mutex := v, owner := v }
  refine ⟨fun x hx => ?_, h.free_iff, h.nodup, fun x => ?_, fun t x => ?_, fun t x => ?_,
    fun x => ?_⟩
  · rw [hsent]
    split
    · rename_i hxs; subst hxs; exact h.refcnt x hx
    · exact h.refcnt x hx
  · rw [hsent]
    split
    · rfl
    · exact h.owner x
  · rw [hsent]
    by_cases hxs : x = s
    · subst hxs
      rw [if_pos rfl]
      exact hs t
    · rw [if_neg hxs, ho t x hxs]
      exact h.held_eq t x
  · by_cases hxs : x = s
    · subst hxs
      exact hle t
    · rw [ho t x hxs]
      exact h.held_le t x
  · rw [hsent]
    split
    · rename_i hxs; subst hxs; exact h.ids x
    · exact h.ids x

theorem lock (h : Accounted m refs held) {t : T} {s : Fin n} (hm : (m.sentinel s).mutex = none)
    (hpos : 0 < refs s) (hh : ∀ t' x, held' t' x = held t' x + if t' = t ∧ x = s then 1 else 0) :
    Accounted (sentinelLock m t s) refs held' := by
  have h0 : ∀ t', held t' s = 0 := fun t' => by rw [h.held_eq, hm]; rfl
  refine h.remutex s (some t) (fun t' => ?_) (fun t' x hx => ?_) (fun t' => ?_)
  · rw [hh, h0]
    by_cases ht : t' = t
    · subst ht; rw [if_pos ⟨rfl, rfl⟩, if_pos rfl]
    · rw [if_neg fun hc => ht hc.1, if_neg fun hc => ht (Option.some.inj hc).symm]
  · rw [hh, if_neg fun hc => hx hc.2, Nat.add_zero]
  · rw [hh, h0]
    split <;> omega

theorem unlock (h : Accounted m refs held) {t : T} {s : Fin n} (hs : 0 < held t s)
    (hh : ∀ t' x, held t' x = held' t' x + if t' = t ∧ x = s then 1 else 0) :
    Accounted (sentinelUnlock m s) refs held' := by
  have hm := h.mutex_of_held hs
  have hz : ∀ t', held' t' s = 0 := by
    intro t'
    have h1 := h.held_eq t' s
    have h2 := hh t' s
    rw [hm] at h1
    by_cases ht : t' = t
    · subst ht
      rw [if_pos rfl] at h1
      rw [if_pos ⟨rfl, rfl⟩] at h2
      omega
    · rw [if_neg fun hc => ht (Option.some.inj hc).symm] at h1
      omega
  refine h.remutex s none (fun t' => hz t') (fun t' x hx => ?_) (fun t' => ?_)
  · rw [hh, if_neg fun hc => hx hc.2, Nat.add_zero]
  · rw [hz]
    exact Nat.zero_le _

end Accounted

/-! ## lists -/

/-- the number of entries for `s` -/
def refOf (l : List (SentinelEntry (Fin n))) (s : Fin n) : Nat :=
  l.countP fun e => e.sentinel = s

def heldOf (l : List (SentinelEntry (Fin n))) (s : Fin n) : Nat :=
  l.countP fun e => e.sentinel = s && e.acquired

/-- the references that a release leaves: those of the entries to be acquired on retry -/
def keptOf (transactionCompletion : Bool) (l : List (SentinelEntry (Fin n))) (s : Fin n) : Nat :=
  l.countP fun e => e.sentinel = s && (!transactionCompletion && e.onRetry)

theorem heldOf_le (l : List (SentinelEntry (Fin n))) (s : Fin n) : heldOf l s ≤ refOf l s := by
  unfold heldOf refOf
  apply List.countP_mono_left
  intro e _ h
  rw [Bool.and_eq_true] at h
  exact h.1

theorem refOf_cons (e : SentinelEntry (Fin n)) (l : List (SentinelEntry (Fin n))) (s : Fin n) :
    refOf (e :: l) s = refOf l s + if s = e.sentinel then 1 else 0 := by
  unfold refOf
  rw [List.countP_cons]
  simp only [decide_eq_true_eq, eq_comm (a := s)]

theorem heldOf_cons (e : SentinelEntry (Fin n)) (l : List (SentinelEntry (Fin n))) (s : Fin n) :
    heldOf (e :: l) s = heldOf l s + if s = e.sentinel ∧ e.acquired then 1 else 0 := by
  unfold heldOf
  rw [List.countP_cons]
  simp only [Bool.and_eq_true, decide_eq_true_eq, eq_comm (a := s)]

theorem keptOf_cons (c : Bool) (e : SentinelEntry (Fin n)) (l : List (SentinelEntry (Fin n)))
    (s : Fin n) :
    keptOf c (e :: l) s
      = keptOf c l s + if s = e.sentinel ∧ c = false ∧ e.onRetry then 1 else 0 := by
  unfold keptOf
  rw [List.countP_cons]
  simp only [Bool.and_eq_true, decide_eq_true_eq, Bool.not_eq_true', eq_comm (a := s)]

theorem refOf_append (l l' : List (SentinelEntry (Fin n))) (s : Fin n) :
    refOf (l ++ l') s = refOf l s + refOf l' s := List.countP_append

theorem heldOf_append (l l' : List (SentinelEntry (Fin n))) (s : Fin n) :
    heldOf (l ++ l') s = heldOf l s + heldOf l' s := List.countP_append

namespace Accounted
variable {m : SentinelMgr T n} {held : T → Fin n → Nat}

/-- one turn of the release loop by `t`, on the entry `e` -/
theorem releaseEntry (c : Bool) {t : T} {base : Fin n → Nat} {e : SentinelEntry (Fin n)}
    {l : List (SentinelEntry (Fin n))}
    (h : Accounted m (fun s => base s + refOf (e :: l) s)
      (fun t' s => if t' = t then heldOf (e :: l) s else held t' s))
    (hle : ∀ t' s, t' ≠ t → held t' s ≤ base s) :
    Accounted (XCalls.releaseEntry c m e)
      (fun s => base s + (if s = e.sentinel ∧ c = false ∧ e.onRetry then 1 else 0) + refOf l s)
      (fun t' s => if t' = t then heldOf l s else held t' s) := by
  have hbound : ∀ t' s, (if t' = t then heldOf l s else held t' s) ≤ base s + refOf l s := by
    intro t' s
    split
    · have := heldOf_le l s
      omega
    · rename_i ht
      have := hle t' s ht
      omega
  -- the entry's mutex is given back first
  have h1 : Accounted (if e.acquired then sentinelUnlock m e.sentinel else m)
      (fun s => base s + refOf (e :: l) s)
      (fun t' s => if t' = t then heldOf l s else held t' s) := by
    by_cases ha : e.acquired = true
    · rw [if_pos ha]
      refine h.unlock (t := t) (s := e.sentinel) ?_ fun t' x => ?_
      · rw [if_pos rfl, heldOf_cons, if_pos ⟨rfl, ha⟩]
        omega
      · by_cases ht : t' = t
        · subst ht
          rw [if_pos rfl, if_pos rfl, heldOf_cons]
          simp [ha]
        · rw [if_neg ht, if_neg ht, if_neg fun hc => ht hc.1, Nat.add_zero]
    · rw [if_neg ha]
      refine h.congr (fun _ => rfl) fun t' x => ?_
      split
      · rw [heldOf_cons, if_neg fun hc => ha hc.2, Nat.add_zero]
      · rfl
  -- then its reference, unless it is carried over the retry
  unfold XCalls.releaseEntry
  by_cases hk : c = false ∧ e.onRetry = true
  · rw [if_neg (by rw [hk.1]; exact Bool.false_ne_true),
      if_neg (by rw [hk.2]; exact Bool.false_ne_true)]
    refine h1.congr (fun s => ?_) fun _ _ => rfl
    rw [refOf_cons]
    simp only [hk.1, hk.2, and_true]
    omega
  · have hd : (if c then sentinelDetach (if e.acquired then sentinelUnlock m e.sentinel else m)
          e.sentinel
        else if !e.onRetry then sentinelDetach
            (if e.acquired then sentinelUnlock m e.sentinel else m) e.sentinel
          else if e.acquired then sentinelUnlock m e.sentinel else m)
        = sentinelDetach (if e.acquired then sentinelUnlock m e.sentinel else m) e.sentinel := by
      cases hc : c with
      | true => rfl
      | false =>
        cases ho : e.onRetry with
        | false => rfl
        | true => exact absurd ⟨hc, ho⟩ hk
    show Accounted (if c then _ else _) _ _
    rw [hd]
    have hzero : ∀ x, (if x = e.sentinel ∧ c = false ∧ e.onRetry then 1 else 0) = 0 :=
      fun x => if_neg fun hc => hk hc.2
    refine h1.detach (fun x => ?_) fun t' x => ?_
    · rw [refOf_cons, hzero]
      omega
    · rw [hzero]
      exact hbound t' x

/-- **The release loop.**  Releasing the list of `t` drops its references, or, before a retry, all
but those it will acquire again, and gives all its mutexes back. -/
theorem release (c : Bool) {t : T} (l : List (SentinelEntry (Fin n))) :
    ∀ (m : SentinelMgr T n) (base : Fin n → Nat),
      Accounted m (fun s => base s + refOf l s)
        (fun t' s => if t' = t then heldOf l s else held t' s) →
      (∀ t' s, t' ≠ t → held t' s ≤ base s) →
      Accounted (sentinelListRelease c m l) (fun s => base s + keptOf c l s)
        (fun t' s => if t' = t then 0 else held t' s) := by
  induction l with
  | nil =>
    intro m base h _
    exact h
  | cons e l ih =>
    intro m base h hle
    have h1 := h.releaseEntry c hle
    have h2 := ih _ _ h1 fun t' s ht => Nat.le_trans (hle t' s ht) (Nat.le_add_right _ _)
    refine h2.congr (fun s => ?_) fun _ _ => rfl
    rw [keptOf_cons]
    omega

end Accounted

end XCalls
