import XCalls.Core.Koa
import XCalls.Lib.EventSys

/-!
# The representation invariant of the KOA manager

* `KoaSys`, `koaStep`   the manager under any sequence of its operations, with the number of
                      outstanding `txc_koa_attach` calls of each KOA;
* `Rep`               the array of a live KOA lists the descriptors mapped to it, and its count is
                      that of its descriptors and outstanding attaches;
* `CompactOk`         when `txc_koa_detach_fd` compacts the array rightly: it moves the entry behind
                      the last one into the gap;
* `koaStep_rep_iff`   a step keeps the invariant if and only if it compacts rightly;
* `koa_rep`           the invariant in every run whose steps do;
* `koa_rep_lost`      a run that loses a descriptor.
-/

namespace XCalls
open EventSys
variable {T : Type} {n N : Nat}

structure KoaSys (T : Type) (n N : Nat) where
  mgr : KoaMgr T n N
  outstanding : Fin N → Nat

inductive KoaOp (N : Nat) where
  | create (type : KoaType) (args : UInt32)
  | attachFd (k : Fin N) (fd : Nat)
  | detachFd (k : Fin N) (fd : Nat)
  | attach (k : Fin N)
  | detach (k : Fin N)

/-- the operations under their preconditions -/
def koaStep (σ : KoaSys T n N) : KoaOp N → Option (KoaSys T n N)
  | .create type args => (koaCreate σ.mgr type args).map fun r => { σ with mgr := r.2 }
  | .attachFd k fd =>
    if k ∉ σ.mgr.free ∧ σ.mgr.map fd = none ∧ (σ.mgr.koa k).fdRefcnt < maxNumFdrefsPerKoa then
      (koaAttachFd σ.mgr k fd).map fun m => { σ with mgr := m }
    else none
  | .detachFd k fd =>
    if σ.mgr.map fd = some k then some { σ with mgr := (koaDetachFd σ.mgr k fd).2 } else none
  | .attach k =>
    if k ∉ σ.mgr.free then
      some ⟨koaAttach σ.mgr k, Function.update σ.outstanding k (σ.outstanding k + 1)⟩
    else none
  | .detach k =>
    if k ∉ σ.mgr.free ∧ 0 < σ.outstanding k then
      some ⟨koaDetach σ.mgr k, Function.update σ.outstanding k (σ.outstanding k - 1)⟩
    else none

/-- after `txc_koamgr_create` -/
def koaInit (σ : KoaSys T n N) : Prop :=
  koamgrCreate T n N = some σ.mgr ∧ σ.outstanding = fun _ => 0

/-! ## what the operations do to the fields -/

section
variable (m : KoaMgr T n N) (k : Fin N)

theorem countAttach_koa (x : Fin N) :
    (countAttach m k).koa x
      = if x = k then { m.koa k with refcnt := (m.koa k).refcnt + 1 } else m.koa x := by
  rw [← KoaMgr.set_koa]
  unfold countAttach aliasCacheInsert
  dsimp only
  split
  · split <;> rfl
  · rfl

theorem countAttach_map : (countAttach m k).map = m.map := by
  unfold countAttach aliasCacheInsert
  dsimp only
  split
  · split <;> rfl
  · rfl

theorem countAttach_free : (countAttach m k).free = m.free := by
  unfold countAttach aliasCacheInsert
  dsimp only
  split
  · split <;> rfl
  · rfl

theorem countDetach_koa (x : Fin N) :
    (countDetach m k).koa x
      = if x = k then { m.koa k with refcnt := (m.koa k).refcnt - 1 } else m.koa x := by
  rw [← KoaMgr.set_koa]
  unfold countDetach koaDestroy aliasCacheRemove
  dsimp only
  split
  · split <;> rfl
  · rfl

theorem countDetach_map : (countDetach m k).map = m.map := by
  unfold countDetach koaDestroy aliasCacheRemove
  dsimp only
  split
  · split <;> rfl
  · rfl

theorem countDetach_free :
    (countDetach m k).free = if (m.koa k).refcnt - 1 = 0 then k :: m.free else m.free := by
  unfold countDetach koaDestroy aliasCacheRemove
  dsimp only
  rw [KoaMgr.set_koa, if_pos rfl]
  dsimp only
  split
  · split <;> rfl
  · rfl

end

/-! ## the invariant -/

/-- the array of `k` lists the descriptors mapped to it, once each, and the counts agree -/
structure KoaOk (m : KoaMgr T n N) (out : Nat) (k : Fin N) : Prop where
  nonneg : 0 ≤ (m.koa k).fdRefcnt
  bound : (m.koa k).fdRefcnt ≤ maxNumFdrefsPerKoa
  inj : ∀ i j, i < (m.koa k).fdRefcnt.toNat → j < (m.koa k).fdRefcnt.toNat →
    (m.koa k).fd i = (m.koa k).fd j → i = j
  lists : ∀ fd, m.map fd = some k ↔ ∃ i < (m.koa k).fdRefcnt.toNat, (m.koa k).fd i = fd
  total : (m.koa k).refcnt = (m.koa k).fdRefcnt + out

structure Rep (σ : KoaSys T n N) : Prop where
  nodup : σ.mgr.free.Nodup
  koaOk : ∀ k, k ∉ σ.mgr.free → KoaOk σ.mgr (σ.outstanding k) k
  mapped : ∀ fd k, σ.mgr.map fd = some k → k ∉ σ.mgr.free
  idle : ∀ k ∈ σ.mgr.free, σ.outstanding k = 0

/-- all references to `k` -/
def koaTotal (σ : KoaSys T n N) (k : Fin N) : Nat :=
  (σ.mgr.koa k).fdRefcnt.toNat + σ.outstanding k

theorem KoaOk.frame {m m' : KoaMgr T n N} {out : Nat} {k : Fin N} (h : KoaOk m out k)
    (hk : m'.koa k = m.koa k) (hm : ∀ fd, m'.map fd = some k ↔ m.map fd = some k) :
    KoaOk m' out k := by
  refine ⟨?_, ?_, ?_, fun fd => ?_, ?_⟩
  · rw [hk]; exact h.nonneg
  · rw [hk]; exact h.bound
  · rw [hk]; exact h.inj
  · rw [hm, hk]; exact h.lists fd
  · rw [hk]; exact h.total

/-! ## creation -/

theorem koaCreate_cases {m m' : KoaMgr T n N} {k : Fin N} {type : KoaType} {args : UInt32}
    (h : koaCreate m type args = some (k, m')) :
    ∃ rest, m.free = k :: rest ∧ m'.free = rest ∧ m'.map = m.map ∧
      (∀ x, x ≠ k → m'.koa x = m.koa x) ∧
      (m'.koa k).fdRefcnt = 0 ∧ (m'.koa k).refcnt = 0 := by
  unfold koaCreate at h
  cases hf : m.free with
  | nil => rw [hf] at h; cases h
  | cons k' rest =>
    rw [hf] at h
    obtain ⟨⟨s, sm⟩, _, hr⟩ := Option.map_eq_some_iff.mp h
    simp only [Prod.mk.injEq] at hr
    obtain ⟨rfl, rfl⟩ := hr
    have hset := m.set_koa k' { m.koa k' with
      sentinel := some s, type := type, refcnt := 0, fdRefcnt := 0,
      stIno := if type = .file then args else (m.koa k').stIno }
    refine ⟨rest, rfl, rfl, rfl, fun x hx => ?_, ?_, ?_⟩
    · exact (hset x).trans (if_neg hx)
    · show ((m.set k' _).koa k').fdRefcnt = 0
      rw [hset, if_pos rfl]
    · show ((m.set k' _).koa k').refcnt = 0
      rw [hset, if_pos rfl]

theorem rep_create {σ : KoaSys T n N} (h : Rep σ) {k : Fin N} {m' : KoaMgr T n N}
    {type : KoaType} {args : UInt32} (hc : koaCreate σ.mgr type args = some (k, m')) :
    Rep ⟨m', σ.outstanding⟩ := by
  obtain ⟨rest, hf, hf', hm, ho, h0, h1⟩ := koaCreate_cases hc
  have hnd := h.nodup
  rw [hf, List.nodup_cons] at hnd
  have hk : k ∈ σ.mgr.free := by rw [hf]; exact List.mem_cons_self
  have hlive : ∀ x, x ≠ k → x ∉ rest → x ∉ σ.mgr.free := by
    intro x hx hr
    rw [hf, List.mem_cons]
    exact not_or.mpr ⟨hx, hr⟩
  refine ⟨by rw [hf']; exact hnd.2, fun x hx => ?_, fun fd x hx => ?_, fun x hx => ?_⟩
  · by_cases hxk : x = k
    · subst hxk
      refine ⟨by rw [h0], by rw [h0]; decide, ?_, fun fd => ?_, ?_⟩
      · intro i j hi
        rw [h0] at hi
        exact absurd hi (Nat.not_lt_zero _)
      · rw [hm, h0]
        refine iff_of_false (fun hc => h.mapped fd x hc hk) ?_
        rintro ⟨i, hi, _⟩
        exact absurd hi (Nat.not_lt_zero _)
      · rw [h0, h1, h.idle x hk]
        rfl
    · rw [hf'] at hx
      exact (h.koaOk x (hlive x hxk hx)).frame (ho x hxk) fun fd => by rw [hm]
  · rw [hf']
    rw [hm] at hx
    have hnf := h.mapped fd x hx
    rw [hf, List.mem_cons] at hnf
    exact fun hc => hnf (Or.inr hc)
  · rw [hf'] at hx
    exact h.idle x (by rw [hf]; exact List.mem_cons_of_mem _ hx)

/-! ## attaching -/

theorem koaAttachFd_cases {m m' : KoaMgr T n N} {k : Fin N} {fd : Nat}
    (h : koaAttachFd m k fd = some m') :
    m'.free = m.free ∧ m'.map = Function.update m.map fd (some k) ∧
      (∀ x, x ≠ k → m'.koa x = m.koa x) ∧
      m'.koa k = { m.koa k with
        fd := Function.update (m.koa k).fd (m.koa k).fdRefcnt.toNat fd
        fdRefcnt := (m.koa k).fdRefcnt + 1
        refcnt := (m.koa k).refcnt + 1 } := by
  unfold koaAttachFd at h
  dsimp only at h
  split at h
  · cases h
  · cases h
    have hk : (countAttach { m with map := Function.update m.map fd (some k) } k).koa k
        = { m.koa k with refcnt := (m.koa k).refcnt + 1 } := by
      rw [countAttach_koa, if_pos rfl]
    refine ⟨countAttach_free _ _, countAttach_map _ _, fun x hx => ?_, ?_⟩
    · rw [KoaMgr.set_koa, if_neg hx, countAttach_koa, if_neg hx]
    · rw [KoaMgr.set_koa, if_pos rfl, hk]

theorem rep_attachFd {σ : KoaSys T n N} (h : Rep σ) {k : Fin N} {fd : Nat} {m' : KoaMgr T n N}
    (hl : k ∉ σ.mgr.free) (hfd : σ.mgr.map fd = none)
    (hlt : (σ.mgr.koa k).fdRefcnt < maxNumFdrefsPerKoa)
    (hc : koaAttachFd σ.mgr k fd = some m') : Rep ⟨m', σ.outstanding⟩ := by
  obtain ⟨hf, hm, ho, hk⟩ := koaAttachFd_cases hc
  have hok := h.koaOk k hl
  have hnn := hok.nonneg
  -- the new descriptor goes into the slot behind the array
  have hr : ((σ.mgr.koa k).fdRefcnt + 1).toNat = (σ.mgr.koa k).fdRefcnt.toNat + 1 := by omega
  have hnew : ∀ i < (σ.mgr.koa k).fdRefcnt.toNat, (σ.mgr.koa k).fd i ≠ fd := by
    intro i hi hc
    have := (hok.lists fd).mpr ⟨i, hi, hc⟩
    rw [hfd] at this
    cases this
  refine ⟨by rw [hf]; exact h.nodup, fun x hx => ?_, fun y x hx => ?_, fun x hx => ?_⟩
  · rw [hf] at hx
    by_cases hxk : x = k
    · subst hxk
      refine ⟨?_, ?_, ?_, fun y => ?_, ?_⟩
      · rw [hk]; show 0 ≤ (σ.mgr.koa x).fdRefcnt + 1; omega
      · rw [hk]; show (σ.mgr.koa x).fdRefcnt + 1 ≤ _; omega
      · rw [hk]
        dsimp only
        rw [hr]
        intro i j hi hj heq
        rw [Function.update_apply, Function.update_apply] at heq
        split at heq
        · split at heq
          · omega
          · exact absurd heq.symm (hnew j (by omega))
        · split at heq
          · exact absurd heq (hnew i (by omega))
          · exact hok.inj i j (by omega) (by omega) heq
      · rw [hk, hm, Function.update_apply]
        dsimp only
        rw [hr]
        by_cases hy : y = fd
        · subst hy
          rw [if_pos rfl]
          refine iff_of_true rfl ⟨_, Nat.lt_succ_self _, Function.update_self _ _ _⟩
        · rw [if_neg hy, hok.lists]
          constructor
          · rintro ⟨i, hi, rfl⟩
            exact ⟨i, by omega, Function.update_of_ne (by omega) _ _⟩
          · rintro ⟨i, hi, heq⟩
            rw [Function.update_apply] at heq
            split at heq
            · exact absurd heq.symm hy
            · exact ⟨i, by omega, heq⟩
      · rw [hk]
        dsimp only
        rw [hok.total]
        omega
    · refine (h.koaOk x hx).frame (ho x hxk) fun y => ?_
      rw [hm, Function.update_apply]
      split
      · rename_i hy
        rw [hy, hfd]
        simp [Ne.symm hxk]
      · exact Iff.rfl
  · rw [hf]
    rw [hm, Function.update_apply] at hx
    split at hx
    · rw [← Option.some.inj hx]; exact hl
    · exact h.mapped y x hx
  · rw [hf] at hx
    exact h.idle x hx

theorem rep_attach {σ : KoaSys T n N} (h : Rep σ) {k : Fin N} (hl : k ∉ σ.mgr.free) :
    Rep ⟨koaAttach σ.mgr k, Function.update σ.outstanding k (σ.outstanding k + 1)⟩ := by
  unfold koaAttach
  have hok := h.koaOk k hl
  refine ⟨?_, fun x hx => ?_, fun y x hx => ?_, fun x hx => ?_⟩
  · rw [countAttach_free]; exact h.nodup
  · rw [countAttach_free] at hx
    by_cases hxk : x = k
    · subst hxk
      have hk := countAttach_koa σ.mgr x x
      rw [if_pos rfl] at hk
      refine ⟨?_, ?_, ?_, fun y => ?_, ?_⟩
      · rw [hk]; exact hok.nonneg
      · rw [hk]; exact hok.bound
      · rw [hk]; exact hok.inj
      · rw [hk, countAttach_map]; exact hok.lists y
      · rw [hk]
        dsimp only
        rw [Function.update_self, hok.total]
        omega
    · dsimp only
      rw [Function.update_of_ne hxk]
      exact (h.koaOk x hx).frame (by rw [countAttach_koa, if_neg hxk]) fun y => by
        rw [countAttach_map]
  · rw [countAttach_free]
    rw [countAttach_map] at hx
    exact h.mapped y x hx
  · rw [countAttach_free] at hx
    dsimp only
    have hxk : x ≠ k := fun hc => hl (hc ▸ hx)
    rw [Function.update_of_ne hxk]
    exact h.idle x hx

/-! ## detaching -/

/-- dropping a reference of `k`: what is left of the invariant of `k` itself is to be shown only
when `k` stays alive -/
theorem rep_countDetach {σ : KoaSys T n N} (h : Rep σ) {k : Fin N} {m : KoaMgr T n N} {out : Nat}
    (hl : k ∉ σ.mgr.free) (hf : m.free = σ.mgr.free) (ho : ∀ x, x ≠ k → m.koa x = σ.mgr.koa x)
    (hm : ∀ y x, x ≠ k → (m.map y = some x ↔ σ.mgr.map y = some x))
    (htotal : (m.koa k).refcnt - 1 = (m.koa k).fdRefcnt + out) (hnn : 0 ≤ (m.koa k).fdRefcnt)
    (hlast : (m.koa k).fdRefcnt = 0 → ∀ y, m.map y ≠ some k) :
    Rep ⟨countDetach m k, Function.update σ.outstanding k out⟩ ↔
      ((m.koa k).refcnt - 1 ≠ 0 → KoaOk (countDetach m k) out k) := by
  constructor
  · intro hrep hne
    have := hrep.koaOk k (by
      show k ∉ (countDetach m k).free
      rw [countDetach_free, if_neg hne, hf]
      exact hl)
    dsimp only at this
    rwa [Function.update_self] at this
  · intro hk
    have hfree : ∀ x, x ∉ (countDetach m k).free → x ∉ σ.mgr.free := by
      intro x hx hc
      apply hx
      rw [countDetach_free]
      split
      · rw [hf]; exact List.mem_cons_of_mem _ hc
      · rw [hf]; exact hc
    refine ⟨?_, fun x hx => ?_, fun y x hx => ?_, fun x hx => ?_⟩
    · show (countDetach m k).free.Nodup
      rw [countDetach_free]
      split
      · rw [hf]; exact List.nodup_cons.mpr ⟨hl, h.nodup⟩
      · rw [hf]; exact h.nodup
    · dsimp only at hx ⊢
      by_cases hxk : x = k
      · subst hxk
        rw [Function.update_self]
        refine hk fun hc => hx ?_
        rw [countDetach_free, if_pos hc]
        exact List.mem_cons_self
      · rw [Function.update_of_ne hxk]
        refine (h.koaOk x (hfree x hx)).frame ?_ fun y => ?_
        · rw [countDetach_koa, if_neg hxk, ho x hxk]
        · rw [countDetach_map, hm y x hxk]
    · dsimp only at hx ⊢
      rw [countDetach_map] at hx
      rw [countDetach_free]
      by_cases hxk : x = k
      · subst hxk
        rw [if_neg fun hc => hlast (by omega) y hx, hf]
        exact hl
      · have hnf := h.mapped y x ((hm y x hxk).mp hx)
        split
        · rw [List.mem_cons, hf]
          exact not_or.mpr ⟨hxk, hnf⟩
        · rw [hf]; exact hnf
    · dsimp only at hx ⊢
      by_cases hxk : x = k
      · subst hxk
        rw [Function.update_self]
        rw [countDetach_free] at hx
        split at hx
        · omega
        · rw [hf] at hx
          exact absurd hx hl
      · rw [Function.update_of_ne hxk]
        refine h.idle x ?_
        rw [countDetach_free] at hx
        split at hx
        · rw [hf] at hx
          exact (List.mem_cons.mp hx).resolve_left hxk
        · rw [hf] at hx
          exact hx

theorem rep_detach {σ : KoaSys T n N} (h : Rep σ) {k : Fin N} (hl : k ∉ σ.mgr.free)
    (hpos : 0 < σ.outstanding k) :
    Rep ⟨koaDetach σ.mgr k, Function.update σ.outstanding k (σ.outstanding k - 1)⟩ := by
  have hok := h.koaOk k hl
  have htot := hok.total
  refine (rep_countDetach h hl rfl (fun _ _ => rfl) (fun _ _ _ => Iff.rfl) (by omega) hok.nonneg
    ?_).mpr fun _ => ?_
  · intro h0 y hy
    obtain ⟨i, hi, _⟩ := (hok.lists y).mp hy
    rw [h0] at hi
    exact absurd hi (Nat.not_lt_zero _)
  · have hk := countDetach_koa σ.mgr k k
    rw [if_pos rfl] at hk
    refine ⟨?_, ?_, ?_, fun y => ?_, ?_⟩
    · rw [hk]; exact hok.nonneg
    · rw [hk]; exact hok.bound
    · rw [hk]; exact hok.inj
    · rw [hk, countDetach_map]; exact hok.lists y
    · rw [hk]
      dsimp only
      omega

/-- the entry that is moved into the gap is the last one, or the gap is the last one -/
def CompactOk (v : Koa n) (fd : Nat) : Prop :=
  match v.indexOf fd with
  | none => True
  | some index => index + 1 = v.fdRefcnt.toNat ∨
      v.readFd v.fdRefcnt.toNat = v.fd (v.fdRefcnt.toNat - 1)

theorem indexOf_cases {v : Koa n} {fd i : Nat} (h : v.indexOf fd = some i) :
    i < v.fdRefcnt.toNat ∧ v.fd i = fd := by
  unfold Koa.indexOf at h
  have h1 := List.find?_some h
  have h2 := List.mem_of_find?_eq_some h
  rw [List.mem_range] at h2
  exact ⟨h2, by simpa using h1⟩

theorem indexOf_isSome {v : Koa n} {fd i : Nat} (hi : i < v.fdRefcnt.toNat) (hfd : v.fd i = fd) :
    ∃ index, v.indexOf fd = some index := by
  cases h : v.indexOf fd with
  | some index => exact ⟨index, rfl⟩
  | none =>
    unfold Koa.indexOf at h
    rw [List.find?_eq_none] at h
    exact absurd hfd (by simpa using h i (List.mem_range.mpr hi))

/-- the array after the compaction lists what it has to list, exactly if it compacts rightly -/
theorem compact_iff {f : Nat → Nat} {r i w : Nat} (hi : i < r)
    (hinj : ∀ a b, a < r → b < r → f a = f b → a = b) :
    ((∀ a b, a < r - 1 → b < r - 1 → Function.update f i w a = Function.update f i w b → a = b) ∧
      ∀ y, ((∃ a < r, f a = y) ∧ y ≠ f i) ↔ ∃ a < r - 1, Function.update f i w a = y) ↔
    (i + 1 = r ∨ w = f (r - 1)) := by
  constructor
  · rintro ⟨_, hlists⟩
    by_cases hlast : i + 1 = r
    · exact Or.inl hlast
    · refine Or.inr ?_
      -- the last entry has to be somewhere, and it can only be in the gap
      have hne : f (r - 1) ≠ f i := fun hc => by
        have := hinj (r - 1) i (by omega) hi hc
        omega
      obtain ⟨a, ha, heq⟩ := (hlists (f (r - 1))).mp ⟨⟨r - 1, by omega, rfl⟩, hne⟩
      rw [Function.update_apply] at heq
      split at heq
      · exact heq
      · have := hinj a (r - 1) (by omega) (by omega) heq
        omega
  · intro hw
    have hval : ∀ a < r - 1, Function.update f i w a = if a = i then f (r - 1) else f a := by
      intro a ha
      rw [Function.update_apply]
      split
      · rcases hw with hw | hw
        · omega
        · exact hw
      · rfl
    refine ⟨fun a b ha hb heq => ?_, fun y => ?_⟩
    · rw [hval a ha, hval b hb] at heq
      split at heq
      · split at heq
        · omega
        · have := hinj (r - 1) b (by omega) (by omega) heq
          omega
      · split at heq
        · have := hinj a (r - 1) (by omega) (by omega) heq
          omega
        · exact hinj a b (by omega) (by omega) heq
    · constructor
      · rintro ⟨⟨a, ha, rfl⟩, hne⟩
        have hai : a ≠ i := fun hc => hne (by rw [hc])
        by_cases hlast : a = r - 1
        · refine ⟨i, by omega, ?_⟩
          rw [hval i (by omega), if_pos rfl, hlast]
        · refine ⟨a, by omega, ?_⟩
          rw [hval a (by omega), if_neg hai]
      · rintro ⟨a, ha, rfl⟩
        rw [hval a ha]
        split
        · refine ⟨⟨r - 1, by omega, rfl⟩, fun hc => ?_⟩
          have := hinj (r - 1) i (by omega) hi hc
          omega
        · rename_i hai
          exact ⟨⟨a, by omega, rfl⟩, fun hc => hai (hinj a i (by omega) hi hc)⟩

theorem rep_detachFd_iff {σ : KoaSys T n N} (h : Rep σ) {k : Fin N} {fd : Nat}
    (hfd : σ.mgr.map fd = some k) :
    Rep ⟨(koaDetachFd σ.mgr k fd).2, σ.outstanding⟩ ↔ CompactOk (σ.mgr.koa k) fd := by
  have hl := h.mapped fd k hfd
  have hok := h.koaOk k hl
  have htot := hok.total
  have hnn := hok.nonneg
  obtain ⟨j, hj, hjfd⟩ := (hok.lists fd).mp hfd
  obtain ⟨i, hi⟩ := indexOf_isSome hj hjfd
  obtain ⟨hir, hifd⟩ := indexOf_cases hi
  have hcompact : CompactOk (σ.mgr.koa k) fd ↔ i + 1 = (σ.mgr.koa k).fdRefcnt.toNat ∨
      (σ.mgr.koa k).readFd (σ.mgr.koa k).fdRefcnt.toNat
        = (σ.mgr.koa k).fd ((σ.mgr.koa k).fdRefcnt.toNat - 1) := by
    unfold CompactOk
    rw [hi]
  have hres : (koaDetachFd σ.mgr k fd).2 = countDetach
      (({ σ.mgr with map := Function.update σ.mgr.map fd none } : KoaMgr T n N).set k
        { σ.mgr.koa k with
          fd := Function.update (σ.mgr.koa k).fd i
            ((σ.mgr.koa k).readFd (σ.mgr.koa k).fdRefcnt.toNat)
          fdRefcnt := (σ.mgr.koa k).fdRefcnt - 1 }) k := by
    unfold koaDetachFd
    rw [hfd]
    dsimp only
    rw [hi]
  rw [hres, hcompact, ← compact_iff hir hok.inj]
  set w := (σ.mgr.koa k).readFd (σ.mgr.koa k).fdRefcnt.toNat with hw
  set m : KoaMgr T n N :=
    ({ σ.mgr with map := Function.update σ.mgr.map fd none } : KoaMgr T n N).set k
      { σ.mgr.koa k with
        fd := Function.update (σ.mgr.koa k).fd i w
        fdRefcnt := (σ.mgr.koa k).fdRefcnt - 1 } with hm
  have hmk : m.koa k = { σ.mgr.koa k with
      fd := Function.update (σ.mgr.koa k).fd i w
      fdRefcnt := (σ.mgr.koa k).fdRefcnt - 1 } := by
    rw [hm, KoaMgr.set_koa, if_pos rfl]
  have hr : ((σ.mgr.koa k).fdRefcnt - 1).toNat = (σ.mgr.koa k).fdRefcnt.toNat - 1 := by omega
  have hmap : ∀ y, m.map y = some k ↔
      (∃ a < (σ.mgr.koa k).fdRefcnt.toNat, (σ.mgr.koa k).fd a = y) ∧ y ≠ (σ.mgr.koa k).fd i := by
    intro y
    rw [← hok.lists, hifd]
    show Function.update σ.mgr.map fd none y = some k ↔ _
    rw [Function.update_apply]
    split
    · rename_i hy; simp [hy]
    · rename_i hy; simp [hy]
  have hck : (countDetach m k).koa k = { σ.mgr.koa k with
      fd := Function.update (σ.mgr.koa k).fd i w
      fdRefcnt := (σ.mgr.koa k).fdRefcnt - 1
      refcnt := (σ.mgr.koa k).refcnt - 1 } := by
    rw [countDetach_koa, if_pos rfl, hmk]
  have hrep : Rep ⟨countDetach m k, Function.update σ.outstanding k (σ.outstanding k)⟩ ↔
      ((m.koa k).refcnt - 1 ≠ 0 → KoaOk (countDetach m k) (σ.outstanding k) k) := by
    refine rep_countDetach h hl rfl (fun x hx => ?_) (fun y x hx => ?_) ?_ ?_ fun h0 y hy => ?_
    · rw [hm, KoaMgr.set_koa, if_neg hx]
    · show Function.update σ.mgr.map fd none y = some x ↔ _
      rw [Function.update_apply]
      split
      · rename_i hy
        rw [hy, hfd]
        simp [Ne.symm hx]
      · exact Iff.rfl
    · rw [hmk]; dsimp only; omega
    · rw [hmk]; dsimp only; omega
    · rw [hmk] at h0
      dsimp only at h0
      obtain ⟨⟨a, ha, rfl⟩, hne⟩ := (hmap y).mp hy
      exact hne (congrArg _ (by omega))
  rw [Function.update_eq_self] at hrep
  rw [hrep, hmk]
  dsimp only
  constructor
  · intro hkoa
    by_cases h0 : (σ.mgr.koa k).refcnt - 1 = 0
    · exact (compact_iff hir hok.inj).mpr (Or.inl (by omega))
    · have hk := hkoa h0
      have hinj := hk.inj
      have hlists := hk.lists
      rw [hck] at hinj hlists
      dsimp only at hinj hlists
      rw [hr] at hinj hlists
      refine ⟨hinj, fun y => ?_⟩
      rw [← hmap, ← hlists, countDetach_map]
  · rintro ⟨hinj, hlists⟩ _
    refine ⟨?_, ?_, ?_, fun y => ?_, ?_⟩
    · rw [hck]; dsimp only; omega
    · have := hok.bound
      rw [hck]; dsimp only; omega
    · rw [hck]; dsimp only; rw [hr]; exact hinj
    · rw [hck, countDetach_map, hmap]; dsimp only; rw [hr]; exact hlists y
    · rw [hck]; dsimp only; omega

/-! ## runs -/

/-- the condition on a step -/
def compactOk (σ : KoaSys T n N) : KoaOp N → Prop
  | .detachFd k fd => CompactOk (σ.mgr.koa k) fd
  | _ => True

/-- **A step keeps the invariant if and only if it compacts rightly.** -/
theorem koaStep_rep_iff {σ σ' : KoaSys T n N} {op : KoaOp N} (h : Rep σ)
    (hs : koaStep σ op = some σ') : Rep σ' ↔ compactOk σ op := by
  cases op with
  | create type args =>
    obtain ⟨⟨k, m'⟩, hc, rfl⟩ := Option.map_eq_some_iff.mp hs
    exact iff_of_true (rep_create h hc) trivial
  | attachFd k fd =>
    simp only [koaStep] at hs
    split at hs
    · rename_i hpre
      obtain ⟨m', hc, rfl⟩ := Option.map_eq_some_iff.mp hs
      exact iff_of_true (rep_attachFd h hpre.1 hpre.2.1 hpre.2.2 hc) trivial
    · cases hs
  | detachFd k fd =>
    simp only [koaStep] at hs
    split at hs
    · rename_i hpre
      cases hs
      exact rep_detachFd_iff h hpre
    · cases hs
  | attach k =>
    simp only [koaStep] at hs
    split at hs
    · rename_i hpre
      cases hs
      exact iff_of_true (rep_attach h hpre) trivial
    · cases hs
  | detach k =>
    simp only [koaStep] at hs
    split at hs
    · rename_i hpre
      cases hs
      exact iff_of_true (rep_detach h hpre.1 hpre.2) trivial
    · cases hs

theorem rep_empty : Rep (⟨koamgrEmpty T n N, fun _ => 0⟩ : KoaSys T n N) := by
  have hfree : ∀ k : Fin N, k ∈ (koamgrEmpty T n N).free := by
    intro k
    have hN : 0 < N := by have := k.isLt; omega
    show k ∈ poolWalk N (poolFirst N)
    rw [poolFirst, dif_pos hN, mem_poolWalk N ⟨0, hN⟩ (by simp)]
    exact Nat.zero_le _
  refine ⟨poolWalk_nodup _ _, fun k hk => absurd (hfree k) hk, fun fd k h => ?_, fun _ _ => rfl⟩
  cases h

theorem rep_precreate {m m' : KoaMgr T n N} {type : KoaType} {fd : Nat}
    (h : Rep (⟨m, fun _ => 0⟩ : KoaSys T n N)) (hfd : m.map fd = none)
    (hc : precreate m type fd = some m') :
    Rep (⟨m', fun _ => 0⟩ : KoaSys T n N) ∧ ∀ y, y ≠ fd → m'.map y = m.map y := by
  obtain ⟨⟨k, m1⟩, h1, h2⟩ := Option.bind_eq_some_iff.mp hc
  obtain ⟨rest, hf, hf', hm, _, h0, _⟩ := koaCreate_cases h1
  have hnd := h.nodup
  rw [hf, List.nodup_cons] at hnd
  have hrep := rep_create h h1
  refine ⟨rep_attachFd hrep ?_ ?_ ?_ h2, fun y hy => ?_⟩
  · show k ∉ m1.free
    rw [hf']
    exact hnd.1
  · show m1.map fd = none
    rw [hm, hfd]
  · show (m1.koa k).fdRefcnt < _
    rw [h0]
    decide
  · rw [(koaAttachFd_cases h2).2.1, Function.update_of_ne hy, hm]

theorem rep_init {σ : KoaSys T n N} (h : koaInit σ) : Rep σ := by
  obtain ⟨hc, ho⟩ := h
  obtain ⟨m1, h1, hc⟩ := Option.bind_eq_some_iff.mp hc
  obtain ⟨m2, h2, h3⟩ := Option.bind_eq_some_iff.mp hc
  obtain ⟨r1, f1⟩ := rep_precreate rep_empty rfl h1
  obtain ⟨r2, f2⟩ := rep_precreate r1 (f1 1 (by decide)) h2
  obtain ⟨r3, _⟩ := rep_precreate r2 ((f2 2 (by decide)).trans (f1 2 (by decide))) h3
  obtain ⟨mgr, out⟩ := σ
  subst ho
  exact r3

theorem mem_free_countDetach {m : KoaMgr T n N} {k x : Fin N} (hx : x ∉ m.free) :
    x ∈ (countDetach m k).free ↔ x = k ∧ (m.koa k).refcnt - 1 = 0 := by
  rw [countDetach_free]
  split
  · rename_i h0
    rw [List.mem_cons]
    simp [hx, h0]
  · rename_i h0
    simp [hx, h0]

/-- a live KOA goes back to the pool exactly when its last reference goes away -/
theorem destroy_iff {σ σ' : KoaSys T n N} {op : KoaOp N} (h : Rep σ)
    (hs : koaStep σ op = some σ') (k : Fin N) (hl : k ∉ σ.mgr.free) :
    k ∈ σ'.mgr.free ↔ 0 < koaTotal σ k ∧ koaTotal σ' k = 0 := by
  have hok := h.koaOk k hl
  have htot := hok.total
  have hnn := hok.nonneg
  -- a step that does not touch `k`
  have hsame : k ∉ σ'.mgr.free → koaTotal σ' k = koaTotal σ k →
      (k ∈ σ'.mgr.free ↔ 0 < koaTotal σ k ∧ koaTotal σ' k = 0) := by
    intro hf ht
    refine iff_of_false hf ?_
    rw [ht]
    omega
  have hmore : k ∉ σ'.mgr.free → 0 < koaTotal σ' k →
      (k ∈ σ'.mgr.free ↔ 0 < koaTotal σ k ∧ koaTotal σ' k = 0) := by
    intro hf ht
    exact iff_of_false hf (by omega)
  unfold koaTotal at *
  cases op with
  | create type args =>
    obtain ⟨⟨k', m'⟩, hc, rfl⟩ := Option.map_eq_some_iff.mp hs
    obtain ⟨rest, hf, hf', _, ho, _, _⟩ := koaCreate_cases hc
    rw [hf, List.mem_cons, not_or] at hl
    exact hsame (by rw [hf']; exact hl.2) (by dsimp only; rw [ho k hl.1])
  | attachFd k' fd =>
    simp only [koaStep] at hs
    split at hs
    · obtain ⟨m', hc, rfl⟩ := Option.map_eq_some_iff.mp hs
      obtain ⟨hf, _, ho, hk⟩ := koaAttachFd_cases hc
      by_cases hkk : k = k'
      · subst hkk
        exact hmore (by rw [hf]; exact hl) (by rw [hk]; dsimp only; omega)
      · exact hsame (by rw [hf]; exact hl) (by dsimp only; rw [ho k hkk])
    · cases hs
  | attach k' =>
    simp only [koaStep] at hs
    split at hs
    · cases hs
      by_cases hkk : k = k'
      · subst hkk
        refine hmore (by unfold koaAttach; rw [countAttach_free]; exact hl) ?_
        dsimp only
        rw [Function.update_self]
        omega
      · refine hsame (by unfold koaAttach; rw [countAttach_free]; exact hl) ?_
        dsimp only [koaAttach]
        rw [countAttach_koa, if_neg hkk, Function.update_of_ne hkk]
    · cases hs
  | detach k' =>
    simp only [koaStep] at hs
    split at hs
    · rename_i hpre
      cases hs
      dsimp only [koaDetach]
      rw [mem_free_countDetach hl, countDetach_koa, Function.update_apply]
      by_cases hkk : k = k'
      · subst hkk
        rw [if_pos rfl, if_pos rfl]
        dsimp only
        omega
      · rw [if_neg hkk, if_neg hkk]
        omega
    · cases hs
  | detachFd k' fd =>
    simp only [koaStep] at hs
    split at hs
    · rename_i hpre
      cases hs
      have hok' := h.koaOk k' (h.mapped fd k' hpre)
      have htot' := hok'.total
      obtain ⟨j, hj, hjfd⟩ := (hok'.lists fd).mp hpre
      obtain ⟨i, hi⟩ := indexOf_isSome hj hjfd
      unfold koaDetachFd
      rw [hpre]
      dsimp only
      rw [hi]
      dsimp only
      rw [mem_free_countDetach (by exact hl), countDetach_koa, KoaMgr.set_koa, if_pos rfl]
      by_cases hkk : k = k'
      · subst hkk
        rw [if_pos rfl]
        dsimp only
        omega
      · rw [if_neg hkk, KoaMgr.set_koa, if_neg hkk]
        dsimp only
        omega
    · cases hs

/-- **The representation invariant**, in every run whose detaches compact rightly. -/
theorem koa_rep (T : Type) (n N : Nat) (σ : KoaSys T n N) (h : Reach koaStep compactOk koaInit σ) :
    Rep σ ∧ (∀ op σ', koaStep σ op = some σ' → (Rep σ' ↔ compactOk σ op)) ∧
      ∀ op σ', koaStep σ op = some σ' → ∀ k, k ∉ σ.mgr.free →
        (k ∈ σ'.mgr.free ↔ 0 < koaTotal σ k ∧ koaTotal σ' k = 0) := by
  have hrep : Rep σ :=
    h.inv (fun _ h0 => rep_init h0) fun _ _ _ hi hok hs => (koaStep_rep_iff hi hs).mpr hok
  exact ⟨hrep, fun op σ' hs => koaStep_rep_iff hrep hs, fun op σ' hs => destroy_iff hrep hs⟩

instance (v : Koa n) (fd : Nat) : Decidable (CompactOk v fd) :=
  match h : v.indexOf fd with
  | none => isTrue (by unfold CompactOk; rw [h]; trivial)
  | some index => decidable_of_iff
      (index + 1 = v.fdRefcnt.toNat ∨ v.readFd v.fdRefcnt.toNat = v.fd (v.fdRefcnt.toNat - 1))
      (by unfold CompactOk; rw [h])

instance (σ : KoaSys T n N) (op : KoaOp N) : Decidable (compactOk σ op) :=
  match op with
  | .detachFd k fd => inferInstanceAs (Decidable (CompactOk (σ.mgr.koa k) fd))
  | .create _ _ | .attachFd _ _ | .attach _ | .detach _ => instDecidableTrue

/-- the manager with a pool of four, no attach outstanding -/
def koaStart : Option (KoaSys Unit 4 4) := (koamgrCreate Unit 4 4).map fun m => ⟨m, fun _ => 0⟩

/-- a file with two descriptors, closed in the reverse order -/
def nestedRun : List (KoaOp 4) :=
  [.create .file 7, .attachFd 3 3, .attachFd 3 4, .attach 3, .detachFd 3 4, .detach 3]

theorem koa_rep_nestedRun :
    ∃ σ₀ σ, koaStart = some σ₀ ∧ run (guarded koaStep compactOk) σ₀ nestedRun = some σ ∧
      Rep σ ∧ (∀ op σ', koaStep σ op = some σ' → (Rep σ' ↔ compactOk σ op)) ∧
      ∀ op σ', koaStep σ op = some σ' → ∀ k, k ∉ σ.mgr.free →
        (k ∈ σ'.mgr.free ↔ 0 < koaTotal σ k ∧ koaTotal σ' k = 0) := by
  obtain ⟨σ, hσ⟩ := Option.isSome_iff_exists.mp (by decide : (koaStart.bind fun σ₀ =>
    run (guarded koaStep compactOk) σ₀ nestedRun).isSome = true)
  obtain ⟨σ₀, h0, hrun⟩ := Option.bind_eq_some_iff.mp hσ
  obtain ⟨m, hm, rfl⟩ := Option.map_eq_some_iff.mp h0
  have hstart : Reach koaStep compactOk koaInit (⟨m, fun _ => 0⟩ : KoaSys Unit 4 4) :=
    .start ⟨hm, rfl⟩
  exact ⟨_, σ, h0, hrun, koa_rep Unit 4 4 σ (hstart.of_guarded nestedRun hrun)⟩

/-- the same file, the first descriptor detached first -/
def middleRun : List (KoaOp 4) := [.create .file 7, .attachFd 3 3, .attachFd 3 4, .detachFd 3 3]

/-- **A descriptor is lost.**  Detaching the first of two descriptors moves the unused entry behind
the array into the gap: the second descriptor is still mapped but no longer listed. -/
theorem koa_rep_lost :
    ¬ ∀ σ : KoaSys Unit 4 4, Reach koaStep any koaInit σ → Rep σ := by
  intro hall
  have hend : (koaStart.bind fun σ₀ => run koaStep σ₀ middleRun).map (fun σ =>
      (σ.mgr.map 4, (σ.mgr.koa 3).fdRefcnt, (σ.mgr.koa 3).fd 0, decide (3 ∈ σ.mgr.free)))
      = some (some 3, 1, 0, false) := by decide
  obtain ⟨σ, hσ, hval⟩ := Option.map_eq_some_iff.mp hend
  obtain ⟨σ₀, h0, hrun⟩ := Option.bind_eq_some_iff.mp hσ
  obtain ⟨m, hm, rfl⟩ := Option.map_eq_some_iff.mp h0
  simp only [Prod.mk.injEq, decide_eq_false_iff_not] at hval
  obtain ⟨hmap, hcnt, hfd, hlive⟩ := hval
  have hrep := hall σ ((reach_of_run middleRun hrun).mono_init fun s hs => by
    subst hs; exact ⟨hm, rfl⟩)
  obtain ⟨i, hi, hi4⟩ := ((hrep.koaOk 3 hlive).lists 4).mp hmap
  rw [hcnt] at hi
  have : i = 0 := Nat.lt_one_iff.mp hi
  rw [this, hfd] at hi4
  cases hi4

end XCalls
