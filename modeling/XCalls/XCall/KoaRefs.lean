import XCalls.XCall.FdLocks

/-!
# References to KOAs that are still to be dropped

An action that is still to be called will drop references: `x_close_commit` and the undo actions of
the calls that return a descriptor detach a descriptor, the others detach a path.

* `Attached`   a descriptor is mapped to a KOA, or an action is still to detach it;
* `Held`       every such reference is counted, and a KOA with one is out of the pool;
* `Held.create`, `Held.attach`, `Held.detach`, `Held.attachFd`, `Held.detachFd`   the operations of
               the manager keep it.
-/

set_option linter.unusedSectionVars false

namespace XCalls
variable {T : Type} {n N : Nat}

/-- the descriptor is mapped, and to `k` or to be detached from `k` by an action of `pend` -/
def Attached (m : Koas n N) (pend : List (Nat × Fin N)) (fd : Nat) (k : Fin N) : Prop :=
  m.map fd = some k ∨ m.map fd ≠ none ∧ (fd, k) ∈ pend

/-- `refs k` references to `k` will be dropped, besides those of the descriptors; there may be more
references than are known -/
structure Held (m : Koas n N) (pend : List (Nat × Fin N)) (refs : Fin N → Nat) : Prop where
  nodup : m.free.Nodup
  counted : ∀ k (s : Finset Nat), (∀ fd ∈ s, Attached m pend fd k) →
    (s.card : Int) ≤ (m.koa k).fdRefcnt
  covered : ∀ k, k ∉ m.free → (m.koa k).fdRefcnt + refs k ≤ (m.koa k).refcnt
  attached : ∀ fd k, Attached m pend fd k → k ∉ m.free
  taken : ∀ k, 0 < refs k → k ∉ m.free
  unlisted : ∀ k ∈ m.free, (m.koa k).fdRefcnt = 0
  cached : ∀ ino k, m.aliasCache ino = some k →
    k ∉ m.free ∧ (m.koa k).type = .file ∧ (m.koa k).stIno = ino

section
variable {m m' : KoaMgr T n N} {k : Fin N} {fd : Nat} {pend pend' : List (Nat × Fin N)}
  {refs refs' : Fin N → Nat}

theorem Attached.mono {m : Koas n N} (hp : ∀ x ∈ pend', x ∈ pend) (h : Attached m pend' fd k) :
    Attached m pend fd k := by
  rcases h with h | ⟨h1, h2⟩
  · exact Or.inl h
  · exact Or.inr ⟨h1, hp _ h2⟩

theorem Attached.ne_none {m : Koas n N} (h : Attached m pend fd k) : m.map fd ≠ none := by
  rcases h with h | h
  · rw [h]
    exact Option.some_ne_none k
  · exact h.1

theorem Held.weaken {m : Koas n N} (h : Held m pend refs)
    (hatt : ∀ fd k, Attached m pend' fd k → Attached m pend fd k) (hr : ∀ k, refs' k ≤ refs k) :
    Held m pend' refs' where
  nodup := h.nodup
  counted k s hs := h.counted k s fun fd hfd => hatt fd k (hs fd hfd)
  covered k hk := by
    have h1 := h.covered k hk
    have h2 := hr k
    omega
  attached fd k hk := h.attached fd k (hatt fd k hk)
  taken k hk := h.taken k (Nat.lt_of_lt_of_le hk (hr k))
  unlisted := h.unlisted
  cached := h.cached

theorem Held.mono {m : Koas n N} (h : Held m pend refs) (hp : ∀ x ∈ pend', x ∈ pend)
    (hr : ∀ k, refs' k ≤ refs k) : Held m pend' refs' :=
  h.weaken (fun _ _ hk => hk.mono hp) hr

theorem Held.nonneg {m : Koas n N} (h : Held m pend refs) (k : Fin N) : 0 ≤ (m.koa k).fdRefcnt := by
  have := h.counted k ∅ (fun fd hfd => absurd hfd (Finset.notMem_empty fd))
  simpa using this

theorem Held.idle {m : Koas n N} (h : Held m pend refs) (hk : k ∈ m.free) : refs k = 0 := by
  by_contra hne
  exact h.taken k (Nat.pos_of_ne_zero hne) hk

/-- a change that concerns one KOA of those out of the pool -/
theorem Held.change {m m' : Koas n N} (h : Held m pend refs) (hfree : m'.free = m.free)
    (hk : k ∉ m.free) (ho : ∀ x, x ≠ k → m'.koa x = m.koa x)
    (htype : (m'.koa k).type = (m.koa k).type ∧ (m'.koa k).stIno = (m.koa k).stIno)
    (hatt : ∀ fd x, x ≠ k → Attached m' pend fd x → Attached m pend fd x)
    (hrefs : ∀ x, x ≠ k → refs' x = refs x)
    (halias : ∀ ino x, m'.aliasCache ino = some x → m.aliasCache ino = some x ∨
      x = k ∧ (m.koa k).type = .file ∧ (m.koa k).stIno = ino)
    (hcount : ∀ s : Finset Nat, (∀ fd ∈ s, Attached m' pend fd k) →
      (s.card : Int) ≤ (m'.koa k).fdRefcnt)
    (hcover : (m'.koa k).fdRefcnt + refs' k ≤ (m'.koa k).refcnt) : Held m' pend refs' where
  nodup := by
    rw [hfree]
    exact h.nodup
  counted x s hs := by
    by_cases hx : x = k
    · subst hx
      exact hcount s hs
    · rw [ho x hx]
      exact h.counted x s fun fd hfd => hatt fd x hx (hs fd hfd)
  covered x hf := by
    rw [hfree] at hf
    by_cases hx : x = k
    · subst hx
      exact hcover
    · rw [ho x hx, hrefs x hx]
      exact h.covered x hf
  attached fd x hfd := by
    rw [hfree]
    by_cases hx : x = k
    · exact hx ▸ hk
    · exact h.attached fd x (hatt fd x hx hfd)
  taken x hr := by
    rw [hfree]
    by_cases hx : x = k
    · exact hx ▸ hk
    · rw [hrefs x hx] at hr
      exact h.taken x hr
  unlisted x hx := by
    rw [hfree] at hx
    rw [ho x fun he => hk (he ▸ hx)]
    exact h.unlisted x hx
  cached ino x ha := by
    rw [hfree]
    rcases halias ino x ha with ha | ⟨rfl, ht, hi⟩
    · obtain ⟨h1, h2, h3⟩ := h.cached ino x ha
      by_cases hx : x = k
      · subst hx
        exact ⟨h1, htype.1.trans h2, htype.2.trans h3⟩
      · rw [ho x hx]
        exact ⟨h1, h2, h3⟩
    · exact ⟨hk, htype.1.trans ht, htype.2.trans hi⟩

/-! ## creation -/

/-- a new KOA has no reference; it was in the pool -/
theorem Held.create {type : KoaType} {args : UInt32} (h : Held m.koas pend refs)
    (hc : koaCreate m type args = some (k, m')) :
    Held m'.koas pend refs ∧ k ∉ m'.free ∧ ∀ x, x ∉ m.free → x ∉ m'.free := by
  obtain ⟨rest, hf, hf', hmap, ho, h0, h1⟩ := koaCreate_cases hc
  have halias : m'.aliasCache = m.aliasCache := by
    unfold koaCreate at hc
    rw [hf] at hc
    obtain ⟨_, _, hr⟩ := Option.map_eq_some_iff.mp hc
    cases hr
    rfl
  have hnd := h.nodup
  rw [show m.koas.free = k :: rest from hf, List.nodup_cons] at hnd
  have hk : k ∈ m.free := by
    rw [hf]
    exact List.mem_cons_self
  have hlive : ∀ x, x ∉ m.free → x ∉ m'.free := by
    intro x hx
    rw [hf']
    rw [hf] at hx
    exact fun hr => hx (List.mem_cons_of_mem _ hr)
  have hatt : ∀ fd x, Attached m'.koas pend fd x → Attached m.koas pend fd x := by
    intro fd x hx
    unfold Attached KoaMgr.koas at hx ⊢
    rw [hmap] at hx
    exact hx
  refine ⟨⟨?_, ?_, ?_, ?_, ?_, ?_, ?_⟩, by rw [hf']; exact hnd.1, hlive⟩
  · show m'.free.Nodup
    rw [hf']
    exact hnd.2
  · intro x s hs
    by_cases hx : x = k
    · subst hx
      have hs : s = ∅ := Finset.eq_empty_of_forall_notMem fun fd hfd =>
        h.attached fd x (hatt fd x (hs fd hfd)) hk
      show (s.card : Int) ≤ (m'.koa x).fdRefcnt
      rw [hs, h0]
      simp
    · show (s.card : Int) ≤ (m'.koa x).fdRefcnt
      rw [ho x hx]
      exact h.counted x s fun fd hfd => hatt fd x (hs fd hfd)
  · intro x hf
    by_cases hx : x = k
    · subst hx
      show (m'.koa x).fdRefcnt + refs x ≤ (m'.koa x).refcnt
      rw [h0, h1, h.idle hk]
      simp
    · show (m'.koa x).fdRefcnt + refs x ≤ (m'.koa x).refcnt
      rw [ho x hx]
      refine h.covered x ?_
      show x ∉ m.free
      rw [‹m.free = _›]
      rw [List.mem_cons, not_or]
      exact ⟨hx, by rw [← hf']; exact hf⟩
  · exact fun fd x hx => hlive x (h.attached fd x (hatt fd x hx))
  · exact fun x hx => hlive x (h.taken x hx)
  · intro x hx
    have hx : x ∈ rest := hf' ▸ hx
    have hne : x ≠ k := fun he => hnd.1 (he ▸ hx)
    show (m'.koa x).fdRefcnt = 0
    rw [ho x hne]
    refine h.unlisted x ?_
    show x ∈ m.free
    rw [hf]
    exact List.mem_cons_of_mem _ hx
  · intro ino x hx
    rw [show m'.koas.aliasCache = m.aliasCache from halias] at hx
    obtain ⟨h1, h2, h3⟩ := h.cached ino x hx
    have hx : x ≠ k := fun hx => h1 (hx ▸ hk)
    show x ∉ m'.free ∧ (m'.koa x).type = _ ∧ (m'.koa x).stIno = _
    rw [ho x hx]
    exact ⟨hlive x h1, h2, h3⟩

/-! ## attaching -/

theorem countAttach_cached {ino : UInt32} {x : Fin N}
    (h : (countAttach m k).aliasCache ino = some x) : m.aliasCache ino = some x ∨
      x = k ∧ (m.koa k).type = .file ∧ (m.koa k).stIno = ino := by
  rw [countAttach_aliasCache] at h
  split at h
  · rename_i hc
    by_cases hi : ino = (m.koa k).stIno
    · subst hi
      rw [Function.update_self] at h
      exact Or.inr ⟨(Option.some.inj h).symm, hc.2.1, rfl⟩
    · rw [Function.update_of_ne hi] at h
      exact Or.inl h
  · exact Or.inl h

/-- `txc_koa_attach`: one more reference that will be dropped -/
theorem Held.attach (h : Held m.koas pend refs) (hk : k ∉ m.free) :
    Held (koaAttach m k).koas pend (Function.update refs k (refs k + 1)) := by
  have hkoa := countAttach_koa m k k
  rw [if_pos rfl] at hkoa
  have hatt : ∀ fd x, Attached (countAttach m k).koas pend fd x → Attached m.koas pend fd x := by
    intro fd x hx
    unfold Attached KoaMgr.koas at hx ⊢
    rw [countAttach_map] at hx
    exact hx
  refine h.change (countAttach_free m k) hk (fun x hx => ?_) ?_ (fun fd x _ => hatt fd x)
    (fun x hx => Function.update_of_ne hx _ _) (fun ino x => countAttach_cached) ?_ ?_
  · show (countAttach m k).koa x = _
    rw [countAttach_koa, if_neg hx]
    rfl
  · show ((countAttach m k).koa k).type = _ ∧ ((countAttach m k).koa k).stIno = _
    rw [hkoa]
    exact ⟨rfl, rfl⟩
  · intro s hs
    show (s.card : Int) ≤ ((countAttach m k).koa k).fdRefcnt
    rw [hkoa]
    exact h.counted k s fun fd hfd => hatt fd k (hs fd hfd)
  · show ((countAttach m k).koa k).fdRefcnt + (Function.update refs k (refs k + 1) k : Nat)
      ≤ ((countAttach m k).koa k).refcnt
    rw [hkoa, Function.update_self]
    have := h.covered k hk
    show (m.koa k).fdRefcnt + ((refs k + 1 : Nat) : Int) ≤ (m.koa k).refcnt + 1
    change (m.koa k).fdRefcnt + (refs k : Int) ≤ (m.koa k).refcnt at this
    omega

/-- `txc_koa_attach_fd`; no action is to detach a descriptor that is not mapped -/
theorem Held.attachFd (h : Held m.koas pend refs) (hk : k ∉ m.free)
    (hfd : ∀ x, (fd, x) ∈ pend → m.map fd ≠ none) (hc : koaAttachFd m k fd = some m') :
    Held m'.koas pend refs := by
  obtain ⟨hfree, hmap, ho, hkoa⟩ := koaAttachFd_cases hc
  have halias : m'.aliasCache = (countAttach m k).aliasCache := by
    unfold koaAttachFd at hc
    dsimp only at hc
    split at hc
    · cases hc
    · cases hc
      show (countAttach { m with map := _ } k).aliasCache = _
      rw [countAttach_aliasCache, countAttach_aliasCache]
  have hmap : m'.koas.map = Function.update m.map fd (some k) := hmap
  -- another descriptor or another KOA was attached before
  have hatt : ∀ fd' x, (fd' ≠ fd ∨ x ≠ k) → Attached m'.koas pend fd' x →
      Attached m.koas pend fd' x := by
    intro fd' x hne hx
    unfold Attached at hx ⊢
    rw [hmap] at hx
    by_cases hf : fd' = fd
    · subst hf
      rw [Function.update_self] at hx
      rcases hx with hx | ⟨-, hx⟩
      · exact absurd (Option.some.inj hx).symm (hne.resolve_left fun hne => hne rfl)
      · exact Or.inr ⟨hfd x hx, hx⟩
    · rw [Function.update_of_ne hf] at hx
      exact hx
  refine h.change hfree hk ho ?_ (fun fd' x hx => hatt fd' x (Or.inr hx)) (fun _ _ => rfl) ?_ ?_ ?_
  · show (m'.koa k).type = _ ∧ (m'.koa k).stIno = _
    rw [hkoa]
    exact ⟨rfl, rfl⟩
  · intro ino x hx
    rw [show m'.koas.aliasCache = (countAttach m k).aliasCache from halias] at hx
    exact countAttach_cached hx
  · intro s hs
    have h1 := h.counted k (s.erase fd) fun fd' hfd' => by
      obtain ⟨hne, hin⟩ := Finset.mem_erase.mp hfd'
      exact hatt fd' k (Or.inl hne) (hs fd' hin)
    have h2 := Finset.pred_card_le_card_erase (s := s) (a := fd)
    show (s.card : Int) ≤ (m'.koa k).fdRefcnt
    rw [hkoa]
    show (s.card : Int) ≤ (m.koa k).fdRefcnt + 1
    change (_ : Int) ≤ (m.koa k).fdRefcnt at h1
    omega
  · show (m'.koa k).fdRefcnt + (refs k : Int) ≤ (m'.koa k).refcnt
    rw [hkoa]
    have := h.covered k hk
    show (m.koa k).fdRefcnt + 1 + (refs k : Int) ≤ (m.koa k).refcnt + 1
    change (m.koa k).fdRefcnt + (refs k : Int) ≤ (m.koa k).refcnt at this
    omega

/-! ## detaching -/

/-- a reference is dropped that is not counted as one -/
theorem Held.countDetach (h : Held m.koas pend refs) (hk : k ∉ m.free)
    (hmore : (m.koa k).fdRefcnt + refs k + 1 ≤ (m.koa k).refcnt) :
    Held (countDetach m k).koas pend refs := by
  have hkoa := countDetach_koa m k k
  rw [if_pos rfl] at hkoa
  have ho : ∀ x, x ≠ k → (XCalls.countDetach m k).koa x = m.koa x := by
    intro x hx
    rw [countDetach_koa, if_neg hx]
  have hatt : ∀ fd x, Attached (XCalls.countDetach m k).koas pend fd x →
      Attached m.koas pend fd x := by
    intro fd x hx
    unfold Attached KoaMgr.koas at hx ⊢
    rw [countDetach_map] at hx
    exact hx
  have halias : ∀ ino x, (XCalls.countDetach m k).aliasCache ino = some x →
      m.aliasCache ino = some x := by
    intro ino x hx
    rw [countDetach_aliasCache] at hx
    split at hx
    · rw [Function.update_apply] at hx
      split at hx
      · cases hx
      · exact hx
    · exact hx
  by_cases hlast : (m.koa k).refcnt - 1 = 0
  · -- the last reference: nothing else refers to the KOA
    have hnn : 0 ≤ (m.koa k).fdRefcnt := h.nonneg k
    have hfree : (XCalls.countDetach m k).free = k :: m.free := by
      rw [countDetach_free, if_pos hlast]
    have hnone : ∀ fd, ¬ Attached m.koas pend fd k := by
      intro fd hfd
      have h1 : (1 : Int) ≤ (m.koa k).fdRefcnt := by
        have := h.counted k {fd} fun x hx => by rwa [Finset.mem_singleton.mp hx]
        rw [Finset.card_singleton] at this
        exact this
      omega
    have hlive : ∀ x, x ≠ k → x ∉ m.free → x ∉ (XCalls.countDetach m k).free := by
      intro x hx hf
      rw [hfree, List.mem_cons, not_or]
      exact ⟨hx, hf⟩
    refine ⟨?_, ?_, ?_, ?_, ?_, ?_, ?_⟩
    · show (XCalls.countDetach m k).free.Nodup
      rw [hfree]
      exact List.nodup_cons.mpr ⟨hk, h.nodup⟩
    · intro x s hs
      have h1 := h.counted x s fun fd hfd => hatt fd x (hs fd hfd)
      show (s.card : Int) ≤ ((XCalls.countDetach m k).koa x).fdRefcnt
      by_cases hx : x = k
      · subst hx
        rw [hkoa]
        exact h1
      · rw [ho x hx]
        exact h1
    · intro x hx
      have hx : x ∉ k :: m.free := by
        rw [← hfree]
        exact hx
      rw [List.mem_cons, not_or] at hx
      obtain ⟨hne, hx⟩ := hx
      show ((XCalls.countDetach m k).koa x).fdRefcnt + (refs x : Int) ≤ _
      rw [ho x hne]
      exact (h.covered x hx).trans_eq (congrArg Koa.refcnt (ho x hne)).symm
    · intro fd x hx
      have hx := hatt fd x hx
      exact hlive x (fun he => hnone fd (he ▸ hx)) (h.attached fd x hx)
    · intro x hx
      refine hlive x (fun he => ?_) (h.taken x hx)
      subst he
      omega
    · intro x hx
      have hx : x ∈ k :: m.free := hfree ▸ hx
      show ((XCalls.countDetach m k).koa x).fdRefcnt = 0
      by_cases hne : x = k
      · subst hne
        rw [hkoa]
        show (m.koa x).fdRefcnt = 0
        omega
      · rw [ho x hne]
        exact h.unlisted x ((List.mem_cons.mp hx).resolve_left hne)
    · intro ino x hx
      obtain ⟨h1, h2, h3⟩ := h.cached ino x (halias ino x hx)
      have hne : x ≠ k := by
        rintro rfl
        have hx : (XCalls.countDetach m x).aliasCache ino = some x := hx
        rw [countDetach_aliasCache, if_pos ⟨hlast, h2⟩, show (m.koa x).stIno = ino from h3,
          Function.update_self] at hx
        cases hx
      show x ∉ (XCalls.countDetach m k).free ∧ ((XCalls.countDetach m k).koa x).type = _ ∧ _ = _
      refine ⟨hlive x hne h1, ?_, ?_⟩
      · rw [ho x hne]
        exact h2
      · show ((XCalls.countDetach m k).koa x).stIno = ino
        rw [ho x hne]
        exact h3
  · have hfree : (XCalls.countDetach m k).free = m.free := by
      rw [countDetach_free, if_neg hlast]
    refine h.change hfree hk ho ?_ (fun fd x _ => hatt fd x) (fun _ _ => rfl)
      (fun ino x hx => Or.inl (halias ino x hx)) ?_ ?_
    · show ((XCalls.countDetach m k).koa k).type = _ ∧ ((XCalls.countDetach m k).koa k).stIno = _
      rw [hkoa]
      exact ⟨rfl, rfl⟩
    · intro s hs
      show (s.card : Int) ≤ ((XCalls.countDetach m k).koa k).fdRefcnt
      rw [hkoa]
      exact h.counted k s fun fd hfd => hatt fd k (hs fd hfd)
    · show ((XCalls.countDetach m k).koa k).fdRefcnt + (refs k : Int)
        ≤ ((XCalls.countDetach m k).koa k).refcnt
      rw [hkoa]
      show (m.koa k).fdRefcnt + (refs k : Int) ≤ (m.koa k).refcnt - 1
      omega

/-- `txc_koa_detach` drops one of the references that will be dropped -/
theorem Held.detach (h : Held m.koas pend refs) (hk : refs k = refs' k + 1)
    (ho : ∀ x, x ≠ k → refs' x = refs x) : Held (koaDetach m k).koas pend refs' := by
  have hlive : k ∉ m.free := h.taken k (by omega)
  have hle : ∀ x, refs' x ≤ refs x := by
    intro x
    by_cases hx : x = k
    · subst hx
      omega
    · exact (ho x hx).le
  refine (h.mono (fun x hx => hx) hle).countDetach hlive ?_
  have := h.covered k hlive
  change (m.koa k).fdRefcnt + (refs k : Int) ≤ (m.koa k).refcnt at this
  omega

/-- `txc_koa_detach_fd` of a descriptor that is attached, or not mapped -/
theorem Held.detachFd (h : Held m.koas pend refs) (hfd : m.map fd ≠ none → Attached m.koas pend fd k) :
    Held (koaDetachFd m k fd).2.koas pend refs := by
  unfold koaDetachFd
  cases hmap : m.map fd with
  | none => exact h
  | some k' =>
    have hatt := hfd (by rw [hmap]; exact Option.some_ne_none k')
    have hk : k ∉ m.free := h.attached fd k hatt
    -- without its entry in the map
    have hback : ∀ {m' : Koas n N} fd' x, m'.map = Function.update m.map fd none →
        Attached m' pend fd' x → fd' ≠ fd ∧ Attached m.koas pend fd' x := by
      intro m' fd' x hm hx
      have hne : fd' ≠ fd := by
        rintro rfl
        refine hx.ne_none ?_
        rw [hm, Function.update_self]
      refine ⟨hne, ?_⟩
      unfold Attached at hx ⊢
      rw [hm, Function.update_of_ne hne] at hx
      exact hx
    have hless : ∀ s : Finset Nat, (∀ fd' ∈ s, fd' ≠ fd ∧ Attached m.koas pend fd' k) →
        (s.card : Int) + 1 ≤ (m.koa k).fdRefcnt := by
      intro s hs
      have hnot : fd ∉ s := fun hin => (hs fd hin).1 rfl
      have := h.counted k (insert fd s) fun x hx => by
        rcases Finset.mem_insert.mp hx with rfl | hx
        · exact hatt
        · exact (hs x hx).2
      rw [Finset.card_insert_of_notMem hnot] at this
      exact_mod_cast this
    dsimp only
    cases hi : (m.koa k).indexOf fd with
    | none =>
      refine h.change rfl hk (fun _ _ => rfl) ⟨rfl, rfl⟩ ?_ (fun _ _ => rfl)
        (fun _ _ => Or.inl) ?_ (h.covered k hk)
      · exact fun fd' x _ hx => (hback fd' x rfl hx).2
      · intro s hs
        have := hless s fun fd' hin => hback fd' k rfl (hs fd' hin)
        show (s.card : Int) ≤ (m.koa k).fdRefcnt
        omega
    | some index =>
      dsimp only
      have hcov := h.covered k hk
      change (m.koa k).fdRefcnt + (refs k : Int) ≤ (m.koa k).refcnt at hcov
      refine Held.countDetach ?_ hk ?_
      · refine h.change rfl hk ?_ ?_ ?_ (fun _ _ => rfl) (fun _ _ => Or.inl) ?_ ?_
        · intro x hx
          exact (KoaMgr.set_koa _ _ _ _).trans (if_neg hx)
        · show ((KoaMgr.set _ k _).koa k).type = _ ∧ ((KoaMgr.set _ k _).koa k).stIno = _
          rw [KoaMgr.set_koa, if_pos rfl]
          exact ⟨rfl, rfl⟩
        · exact fun fd' x _ hx => (hback fd' x rfl hx).2
        · intro s hs
          have := hless s fun fd' hin => hback fd' k rfl (hs fd' hin)
          show (s.card : Int) ≤ ((KoaMgr.set _ k _).koa k).fdRefcnt
          rw [KoaMgr.set_koa, if_pos rfl]
          show (s.card : Int) ≤ (m.koa k).fdRefcnt - 1
          omega
        · show ((KoaMgr.set _ k _).koa k).fdRefcnt + (refs k : Int)
            ≤ ((KoaMgr.set _ k _).koa k).refcnt
          rw [KoaMgr.set_koa, if_pos rfl]
          show (m.koa k).fdRefcnt - 1 + (refs k : Int) ≤ (m.koa k).refcnt
          omega
      · rw [KoaMgr.set_koa, if_pos rfl]
        show (m.koa k).fdRefcnt - 1 + (refs k : Int) + 1 ≤ (m.koa k).refcnt
        omega

end

end XCalls
