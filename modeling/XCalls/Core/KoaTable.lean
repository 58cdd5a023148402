import XCalls.Core.KoaRep

/-!
# The KOAs as a table

* `Koa.fds`        the descriptors that a KOA lists;
* `KoaInfo`, `KoaTable`   what of the KOAs outside the pool can be told apart: counters, lists, types
                   and inode numbers, with the map from descriptors and the alias cache;
* `KoaMgr.table`   the table of a manager, and what the operations of the manager do to it;
* `KoaTable.drop_take`, `KoaTable.drop_fresh`   a reference that is taken and dropped again leaves no
                   trace, on a KOA that was there before and on a new one;
* `KoaTable.Drops`, `KoaTable.DropsFd`   a step that leads back, and two of them in the other order.
-/

set_option linter.unusedSectionVars false

namespace XCalls
variable {T : Type} {n N : Nat}

/-! ## lists of descriptors -/

/-- the descriptors that a KOA lists -/
def Koa.fds (v : Koa n) : List Nat := (List.range v.fdRefcnt.toNat).map v.fd

/-- the counters of descriptors are not negative -/
def FdrefOk (m : KoaMgr T n N) : Prop := ∀ k, 0 ≤ (m.koa k).fdRefcnt

/-- a descriptor is attached at the end of the list -/
theorem fds_attachFd {m m' : KoaMgr T n N} {k : Fin N} {fd : Nat} (h : koaAttachFd m k fd = some m')
    (hk : 0 ≤ (m.koa k).fdRefcnt) : (m'.koa k).fds = (m.koa k).fds ++ [fd] := by
  obtain ⟨-, -, -, hkoa⟩ := koaAttachFd_cases h
  have hr : ((m.koa k).fdRefcnt + 1).toNat = (m.koa k).fdRefcnt.toNat + 1 := by omega
  have hsame : (List.range (m.koa k).fdRefcnt.toNat).map
      (Function.update (m.koa k).fd (m.koa k).fdRefcnt.toNat fd) = (m.koa k).fds := by
    refine List.map_congr_left fun i hi => ?_
    exact Function.update_of_ne (Nat.ne_of_lt (List.mem_range.mp hi)) _ _
  rw [hkoa]
  simp only [Koa.fds]
  rw [hr, List.range_succ, List.map_append, hsame, List.map_singleton, Function.update_self]
  rfl

theorem koaDetachFd_found {m : KoaMgr T n N} {k : Fin N} {fd i : Nat} (hmap : m.map fd ≠ none)
    (hi : (m.koa k).indexOf fd = some i) :
    (koaDetachFd m k fd).2.koa k = { m.koa k with
      fd := Function.update (m.koa k).fd i ((m.koa k).readFd (m.koa k).fdRefcnt.toNat)
      fdRefcnt := (m.koa k).fdRefcnt - 1
      refcnt := (m.koa k).refcnt - 1 } := by
  obtain ⟨k', hk'⟩ := Option.ne_none_iff_exists'.mp hmap
  unfold koaDetachFd
  rw [hk']
  simp only [hi]
  rw [countDetach_koa, if_pos rfl, KoaMgr.set_koa, if_pos rfl]

/-- the last descriptor is detached, when it is listed once -/
theorem fds_detachFd {m : KoaMgr T n N} {k : Fin N} {fd : Nat} {fds : List Nat}
    (hfds : (m.koa k).fds = fds ++ [fd]) (hout : fd ∉ fds) (hmap : m.map fd ≠ none) :
    ((koaDetachFd m k fd).2.koa k).fds = fds := by
  have hlen : (m.koa k).fdRefcnt.toNat = fds.length + 1 := by
    simpa [Koa.fds] using congrArg List.length hfds
  have hsplit : (List.range fds.length).map (m.koa k).fd = fds ∧ (m.koa k).fd fds.length = fd := by
    rw [Koa.fds, hlen, List.range_succ, List.map_append] at hfds
    obtain ⟨h1, h2⟩ := List.append_inj hfds (by simp)
    exact ⟨h1, by simpa using h2⟩
  obtain ⟨i, hi⟩ := indexOf_isSome (v := m.koa k) (by omega) hsplit.2
  obtain ⟨hlt, hfd⟩ := indexOf_cases hi
  -- no earlier entry is this descriptor
  have hlast : i = fds.length := by
    by_contra hne
    refine hout ?_
    rw [← hsplit.1, ← hfd]
    exact List.mem_map.mpr ⟨i, List.mem_range.mpr (by omega), rfl⟩
  rw [koaDetachFd_found hmap hi]
  simp only [Koa.fds]
  rw [show ((m.koa k).fdRefcnt - 1).toNat = fds.length by omega]
  refine Eq.trans (List.map_congr_left fun j hj => ?_) hsplit.1
  exact Function.update_of_ne (by rw [List.mem_range] at hj; omega) _ _

section
variable {m m' : KoaMgr T n N} {k : Fin N}

theorem FdrefOk.of_koa (h : FdrefOk m) (hk : ∀ x, (m'.koa x).fdRefcnt = (m.koa x).fdRefcnt) :
    FdrefOk m' := by
  intro x
  rw [hk x]
  exact h x

theorem FdrefOk.create (h : FdrefOk m) {type : KoaType} {args : UInt32}
    (hc : koaCreate m type args = some (k, m')) : FdrefOk m' := by
  intro x
  unfold koaCreate at hc
  split at hc
  · cases hc
  · obtain ⟨⟨s, sm⟩, -, h2⟩ := Option.map_eq_some_iff.mp hc
    cases h2
    show 0 ≤ (KoaMgr.koa (m.set k _) x).fdRefcnt
    rw [KoaMgr.set_koa]
    split
    · exact le_rfl
    · exact h x

theorem FdrefOk.attachFd (h : FdrefOk m) {fd : Nat} (hc : koaAttachFd m k fd = some m') :
    FdrefOk m' := by
  obtain ⟨-, -, ho, hk⟩ := koaAttachFd_cases hc
  intro x
  by_cases hx : x = k
  · subst hx
    rw [hk]
    have := h x
    show 0 ≤ (m.koa x).fdRefcnt + 1
    omega
  · rw [ho x hx]
    exact h x

theorem FdrefOk.countAttach (h : FdrefOk m) : FdrefOk (countAttach m k) := by
  refine h.of_koa fun x => ?_
  rw [countAttach_koa]
  split
  · rename_i hx
    rw [hx]
  · rfl

theorem FdrefOk.countDetach (h : FdrefOk m) : FdrefOk (countDetach m k) := by
  refine h.of_koa fun x => ?_
  rw [countDetach_koa]
  split
  · rename_i hx
    rw [hx]
  · rfl

theorem FdrefOk.detachFd (h : FdrefOk m) {fd : Nat} : FdrefOk (koaDetachFd m k fd).2 := by
  unfold koaDetachFd
  split
  · exact h
  · dsimp only
    split
    · exact h
    · rename_i i hi
      refine FdrefOk.countDetach fun x => ?_
      rw [KoaMgr.set_koa]
      split
      · have hlt := (indexOf_cases hi).1
        show 0 ≤ (m.koa k).fdRefcnt - 1
        omega
      · exact h x

end

/-! ## the table -/

structure KoaInfo where
  refcnt : Int
  fds : List Nat
  type : KoaType
  stIno : UInt32

def Koa.info (v : Koa n) : KoaInfo := ⟨v.refcnt, v.fds, v.type, v.stIno⟩

/-- the KOAs outside the pool, the map from descriptors and the alias cache -/
@[ext] structure KoaTable (N : Nat) where
  koa : Fin N → Option KoaInfo
  map : Nat → Option (Fin N)
  aliasCache : UInt32 → Option (Fin N)

namespace KoaTable
variable (t : KoaTable N) (k : Fin N) (i : KoaInfo)

/-- a KOA without references is taken from the pool -/
def create (type : KoaType) (stIno : UInt32) : KoaTable N :=
  { t with koa := Function.update t.koa k (some ⟨0, [], type, stIno⟩) }

/-- one more reference to the KOA `k`, which is as `i` says -/
def take : KoaTable N :=
  { t with
    koa := Function.update t.koa k (some { i with refcnt := i.refcnt + 1 })
    aliasCache := if i.refcnt + 1 = 1 ∧ i.type = .file ∧ t.aliasCache i.stIno = none then
      Function.update t.aliasCache i.stIno (some k) else t.aliasCache }

/-- one reference less; the last one takes the KOA back to the pool -/
def drop : KoaTable N :=
  if i.refcnt - 1 = 0 then
    { t with
      koa := Function.update t.koa k none
      aliasCache := if i.type = .file then Function.update t.aliasCache i.stIno none
        else t.aliasCache }
  else { t with koa := Function.update t.koa k (some { i with refcnt := i.refcnt - 1 }) }

def setMap (fd : Nat) (k : Option (Fin N)) : KoaTable N :=
  { t with map := Function.update t.map fd k }

def takeFd (fd : Nat) : KoaTable N :=
  (t.take k { i with fds := i.fds ++ [fd] }).setMap fd (some k)

/-- the KOA `k`, which lists what `i` says once it is detached, loses the descriptor -/
def dropFd (fd : Nat) : KoaTable N := (t.drop k i).setMap fd none

end KoaTable

def KoaMgr.table (m : KoaMgr T n N) : KoaTable N :=
  ⟨fun k => if k ∈ m.free then none else some (m.koa k).info, m.map, m.aliasCache⟩

/-! ## the operations of the manager on the table -/

section
variable {m m' : KoaMgr T n N} {k : Fin N} {i : KoaInfo} {fd : Nat}

theorem table_koa_some (h : m.table.koa k = some i) : k ∉ m.free ∧ i = (m.koa k).info := by
  change (if k ∈ m.free then none else some (m.koa k).info) = some i at h
  split at h
  · cases h
  · exact ⟨‹_›, (Option.some.inj h).symm⟩

theorem table_koa_live (h : k ∉ m.free) : m.table.koa k = some (m.koa k).info := if_neg h

theorem table_koa_free (h : k ∈ m.free) : m.table.koa k = none := if_pos h

/-- the KOAs of a manager that differs at `k` -/
theorem table_update {v : Option KoaInfo} (ho : ∀ x, x ≠ k → m'.koa x = m.koa x)
    (hf : ∀ x, x ≠ k → (x ∈ m'.free ↔ x ∈ m.free)) (hk : m'.table.koa k = v) :
    m'.table.koa = Function.update m.table.koa k v := by
  funext x
  by_cases hx : x = k
  · subst hx
    rw [Function.update_self]
    exact hk
  · rw [Function.update_of_ne hx]
    show (if x ∈ m'.free then none else some (m'.koa x).info) = _
    rw [ho x hx]
    exact if_congr (hf x hx) rfl rfl

theorem table_create {type : KoaType} {args : UInt32} (hn : m.free.Nodup)
    (h : koaCreate m type args = some (k, m')) :
    ∃ stIno, (type = .file → stIno = args) ∧ m.table.koa k = none ∧
      m'.table = m.table.create k type stIno ∧ m'.free.Nodup ∧ (m'.koa k).fdRefcnt = 0 := by
  unfold koaCreate at h
  split at h
  · cases h
  · rename_i k' rest hfree
    obtain ⟨⟨s, sm⟩, -, h2⟩ := Option.map_eq_some_iff.mp h
    cases h2
    rw [hfree, List.nodup_cons] at hn
    refine ⟨if type = .file then args else (m.koa k).stIno, fun ht => if_pos ht,
      table_koa_free (by rw [hfree]; exact List.mem_cons_self), ?_, hn.2, ?_⟩
    · refine KoaTable.ext (table_update ?_ ?_ ?_) rfl rfl
      · intro x hx
        show (m.set k _).koa x = _
        rw [KoaMgr.set_koa, if_neg hx]
      · intro x hx
        show x ∈ rest ↔ x ∈ m.free
        rw [hfree, List.mem_cons]
        exact ⟨Or.inr, fun h => h.resolve_left hx⟩
      · refine (table_koa_live hn.1).trans ?_
        show some ((m.set k _).koa k).info = _
        rw [KoaMgr.set_koa, if_pos rfl]
        rfl
    · show ((m.set k _).koa k).fdRefcnt = 0
      rw [KoaMgr.set_koa, if_pos rfl]

theorem countAttach_aliasCache : (countAttach m k).aliasCache =
    if (m.koa k).refcnt + 1 = 1 ∧ (m.koa k).type = .file ∧ m.aliasCache (m.koa k).stIno = none then
      Function.update m.aliasCache (m.koa k).stIno (some k) else m.aliasCache := by
  have hk : ∀ v, (m.set k v).koa k = v := fun v => by rw [KoaMgr.set_koa, if_pos rfl]
  unfold countAttach aliasCacheInsert
  dsimp only
  simp only [hk]
  by_cases h1 : (m.koa k).refcnt + 1 = 1 ∧ (m.koa k).type = .file
  · rw [if_pos h1]
    cases ha : m.aliasCache (m.koa k).stIno with
    | none =>
      rw [if_pos ⟨h1.1, h1.2, rfl⟩]
      have : (m.set k { m.koa k with refcnt := (m.koa k).refcnt + 1 }).aliasCache
        (m.koa k).stIno = none := ha
      simp only [this]
      rfl
    | some k' =>
      rw [if_neg (fun h => nomatch h.2.2)]
      have : (m.set k { m.koa k with refcnt := (m.koa k).refcnt + 1 }).aliasCache
        (m.koa k).stIno = some k' := ha
      simp only [this]
      rfl
  · rw [if_neg h1, if_neg (fun h => h1 ⟨h.1, h.2.1⟩)]
    rfl

theorem koaAttachFd_aliasCache {m m' : KoaMgr T n N} {k : Fin N} {fd : Nat}
    (h : koaAttachFd m k fd = some m') :
    m'.aliasCache = if (m.koa k).refcnt + 1 = 1 ∧ (m.koa k).type = .file ∧
        m.aliasCache (m.koa k).stIno = none then
      Function.update m.aliasCache (m.koa k).stIno (some k) else m.aliasCache := by
  unfold koaAttachFd at h
  dsimp only at h
  split at h
  · cases h
  · cases h
    exact countAttach_aliasCache (m := { m with map := Function.update m.map fd (some k) })

/-- a new KOA is in the alias cache only when it is attached -/
theorem koaCreate_info {m m' : KoaMgr T n N} {k : Fin N} {type : KoaType} {args : UInt32}
    (h : koaCreate m type args = some (k, m')) :
    (m'.koa k).type = type ∧ (type = .file → (m'.koa k).stIno = args) ∧
      m'.aliasCache = m.aliasCache := by
  unfold koaCreate at h
  cases hf : m.free with
  | nil =>
    rw [hf] at h
    cases h
  | cons k' rest =>
    rw [hf] at h
    obtain ⟨⟨s, sm⟩, -, hr⟩ := Option.map_eq_some_iff.mp h
    cases hr
    refine ⟨?_, fun ht => ?_, rfl⟩
    · show ((m.set k _).koa k).type = _
      rw [KoaMgr.set_koa, if_pos rfl]
    · show ((m.set k _).koa k).stIno = _
      rw [KoaMgr.set_koa, if_pos rfl]
      exact if_pos ht

theorem countDetach_aliasCache : (countDetach m k).aliasCache =
    if (m.koa k).refcnt - 1 = 0 ∧ (m.koa k).type = .file then
      Function.update m.aliasCache (m.koa k).stIno none else m.aliasCache := by
  have hk : ∀ v, (m.set k v).koa k = v := fun v => by rw [KoaMgr.set_koa, if_pos rfl]
  unfold countDetach koaDestroy aliasCacheRemove
  dsimp only
  simp only [hk]
  by_cases h1 : (m.koa k).refcnt - 1 = 0
  · by_cases h2 : (m.koa k).type = .file
    · rw [if_pos h1, if_pos h2, if_pos ⟨h1, h2⟩]
      rfl
    · rw [if_pos h1, if_neg h2, if_neg (fun h => h2 h.2)]
      rfl
  · rw [if_neg h1, if_neg (fun h => h1 h.1)]
    rfl

theorem table_countAttach (h : m.table.koa k = some i) :
    (countAttach m k).table = m.table.take k i := by
  obtain ⟨hlive, rfl⟩ := table_koa_some h
  refine KoaTable.ext (table_update ?_ ?_ ?_) (countAttach_map m k) countAttach_aliasCache
  · intro x hx
    rw [countAttach_koa, if_neg hx]
  · intro x _
    rw [countAttach_free]
  · rw [table_koa_live (by rw [countAttach_free]; exact hlive), countAttach_koa, if_pos rfl]
    rfl

theorem table_countDetach (h : m.table.koa k = some i) :
    (countDetach m k).table = m.table.drop k i := by
  obtain ⟨hlive, rfl⟩ := table_koa_some h
  have ho : ∀ x, x ≠ k → (countDetach m k).koa x = m.koa x := by
    intro x hx
    rw [countDetach_koa, if_neg hx]
  have hfree := countDetach_free m k
  have halias := countDetach_aliasCache (m := m) (k := k)
  unfold KoaTable.drop
  by_cases hr : (m.koa k).refcnt - 1 = 0
  · rw [if_pos (show (m.koa k).info.refcnt - 1 = 0 from hr)]
    rw [if_pos hr] at hfree
    refine KoaTable.ext (table_update ho ?_ ?_) (countDetach_map m k) ?_
    · intro x hx
      rw [hfree, List.mem_cons]
      exact ⟨fun h => h.resolve_left hx, Or.inr⟩
    · exact table_koa_free (by rw [hfree]; exact List.mem_cons_self)
    · refine halias.trans (if_congr ?_ rfl rfl)
      exact ⟨fun h => h.2, fun h => ⟨hr, h⟩⟩
  · rw [if_neg (show ¬ (m.koa k).info.refcnt - 1 = 0 from hr)]
    rw [if_neg hr] at hfree
    refine KoaTable.ext (table_update ho ?_ ?_) (countDetach_map m k) ?_
    · intro x _
      rw [hfree]
    · rw [table_koa_live (by rw [hfree]; exact hlive), countDetach_koa, if_pos rfl]
      rfl
    · exact halias.trans (if_neg fun h => hr h.1)

theorem table_attachFd (h : m.table.koa k = some i) (hr : 0 ≤ (m.koa k).fdRefcnt)
    (hc : koaAttachFd m k fd = some m') : m'.table = m.table.takeFd k i fd := by
  obtain ⟨hlive, rfl⟩ := table_koa_some h
  obtain ⟨hfree, hmap, ho, hk⟩ := koaAttachFd_cases hc
  have halias : m'.aliasCache = (countAttach m k).aliasCache := by
    unfold koaAttachFd at hc
    dsimp only at hc
    split at hc
    · cases hc
    · cases hc
      show (countAttach _ k).aliasCache = _
      rw [countAttach_aliasCache, countAttach_aliasCache]
  refine KoaTable.ext (table_update ho ?_ ?_) hmap (halias.trans countAttach_aliasCache)
  · intro x _
    rw [hfree]
  · rw [table_koa_live (by rw [hfree]; exact hlive)]
    unfold Koa.info
    rw [fds_attachFd hc hr, hk]

theorem KoaTable.drop_setMap (t : KoaTable N) (k : Fin N) (i : KoaInfo) (fd : Nat)
    (x : Option (Fin N)) : (t.setMap fd x).drop k i = (t.drop k i).setMap fd x := by
  unfold KoaTable.drop
  split <;> rfl

theorem KoaTable.drop_update (t : KoaTable N) (k : Fin N) (i : KoaInfo) (v : Option KoaInfo) :
    ({ t with koa := Function.update t.koa k v } : KoaTable N).drop k i = t.drop k i := by
  unfold KoaTable.drop
  split
  all_goals
    dsimp only
    rw [Function.update_idem]

/-- the last descriptor of the list is detached -/
theorem table_detachFd {rest : List Nat} (h : m.table.koa k = some i) (hl : i.fds = rest ++ [fd])
    (hout : fd ∉ rest) (hmap : m.map fd ≠ none) :
    (koaDetachFd m k fd).2.table = m.table.dropFd k { i with fds := rest } fd := by
  obtain ⟨hlive, rfl⟩ := table_koa_some h
  have hfds := fds_detachFd hl hout hmap
  obtain ⟨k', hk'⟩ := Option.ne_none_iff_exists'.mp hmap
  unfold koaDetachFd at hfds ⊢
  rw [hk'] at hfds ⊢
  dsimp only at hfds ⊢
  cases hi : (m.koa k).indexOf fd with
  | none =>
    rw [hi] at hfds
    have hne : (m.koa k).fds = rest := hfds
    have := congrArg List.length (hne.symm.trans hl)
    simp at this
  | some j =>
    rw [hi] at hfds
    dsimp only at hfds ⊢
    generalize hv : (m.koa k).readFd (m.koa k).fdRefcnt.toNat = w at hfds ⊢
    have hset : ∀ v, (KoaMgr.set { m with map := Function.update m.map fd none } k v).koa k = v :=
      fun v => by rw [KoaMgr.set_koa, if_pos rfl]
    rw [countDetach_koa, if_pos rfl, hset] at hfds
    -- the manager before the counter goes down
    have htable : (KoaMgr.set { m with map := Function.update m.map fd none } k
        { m.koa k with
          fd := Function.update (m.koa k).fd j w, fdRefcnt := (m.koa k).fdRefcnt - 1 }).table =
        ({ m.table with
          koa := Function.update m.table.koa k (some { (m.koa k).info with fds := rest }) } :
          KoaTable N).setMap fd none := by
      refine KoaTable.ext (table_update ?_ (fun x _ => Iff.rfl) ?_) rfl rfl
      · intro x hx
        rw [KoaMgr.set_koa, if_neg hx]
      · rw [table_koa_live (by exact hlive), hset]
        unfold Koa.info
        rw [show ({ m.koa k with
          fd := Function.update (m.koa k).fd j w
          fdRefcnt := (m.koa k).fdRefcnt - 1 } : Koa n).fds = rest from hfds]
    rw [table_countDetach (i := { (m.koa k).info with fds := rest })
      (by rw [htable]; exact Function.update_self _ _ _), htable, KoaTable.drop_setMap,
      KoaTable.drop_update]
    rfl

end

/-! ## taking and dropping references -/

namespace KoaTable
variable {t : KoaTable N} {k k' : Fin N} {i j : KoaInfo} {fd fd' : Nat}

/-- references to different KOAs are dropped in any order -/
theorem drop_comm (hk : k ≠ k') : (t.drop k i).drop k' j = (t.drop k' j).drop k i := by
  have hkoa : ∀ x y : Option KoaInfo, Function.update (Function.update t.koa k x) k' y =
      Function.update (Function.update t.koa k' y) k x :=
    fun x y => Function.update_comm hk x y t.koa
  have halias : Function.update (Function.update t.aliasCache i.stIno none) j.stIno none =
      Function.update (Function.update t.aliasCache j.stIno none) i.stIno none := by
    by_cases he : i.stIno = j.stIno
    · rw [he]
    · exact Function.update_comm he none none t.aliasCache
  unfold drop
  by_cases hi : i.refcnt - 1 = 0 <;> by_cases hj : j.refcnt - 1 = 0 <;>
    by_cases hti : i.type = .file <;> by_cases htj : j.type = .file <;>
    simp only [hi, hj, hti, htj, if_true, if_false, hkoa, halias]

def Drops (t' : KoaTable N) (k : Fin N) (t : KoaTable N) : Prop :=
  ∃ i, t'.koa k = some i ∧ t'.drop k i = t

/-- `fd` is the last descriptor of `k`, and detaching it leads back to `t` -/
def DropsFd (t' : KoaTable N) (k : Fin N) (fd : Nat) (t : KoaTable N) : Prop :=
  ∃ i rest, t'.koa k = some i ∧ i.fds = rest ++ [fd] ∧ fd ∉ rest ∧ t'.map fd ≠ none ∧
    t'.dropFd k { i with fds := rest } fd = t

theorem drop_koa (hk : k' ≠ k) : (t.drop k i).koa k' = t.koa k' := by
  unfold drop
  split
  · exact Function.update_of_ne hk _ _
  · exact Function.update_of_ne hk _ _

theorem drop_map : (t.drop k i).map = t.map := by
  unfold drop
  split <;> rfl

theorem Drops.swap {t₁ t₂ : KoaTable N} (h₂ : t₂.Drops k' t₁) (h₁ : t₁.Drops k t) :
    ∃ u, t₂.Drops k u ∧ u.Drops k' t := by
  by_cases hk : k = k'
  · subst hk
    exact ⟨t₁, h₂, h₁⟩
  · obtain ⟨j, hj, rfl⟩ := h₂
    obtain ⟨i, hi, rfl⟩ := h₁
    rw [drop_koa hk] at hi
    refine ⟨t₂.drop k i, ⟨i, hi, rfl⟩, j, ?_, drop_comm hk⟩
    rw [drop_koa (Ne.symm hk)]
    exact hj

theorem DropsFd.swap {t₁ t₂ : KoaTable N} (h₂ : t₂.DropsFd k' fd' t₁) (h₁ : t₁.DropsFd k fd t)
    (hk : k ≠ k') (hfd : fd ≠ fd') : ∃ u, t₂.DropsFd k fd u ∧ u.DropsFd k' fd' t := by
  obtain ⟨j, rest', hj, hl', hout', hmap', rfl⟩ := h₂
  obtain ⟨i, rest, hi, hl, hout, hmap, rfl⟩ := h₁
  have hi' : t₂.koa k = some i := (drop_koa hk).symm.trans hi
  have hmapOf : ∀ (x : Fin N) (l : KoaInfo) (f g : Nat), g ≠ f → (t₂.dropFd x l f).map g = t₂.map g := by
    intro x l f g hg
    refine (Function.update_of_ne hg _ _).trans ?_
    rw [drop_map]
  refine ⟨t₂.dropFd k { i with fds := rest } fd, ⟨i, rest, hi', hl, hout, ?_, rfl⟩, j, rest', ?_, hl',
    hout', ?_, ?_⟩
  · rw [← hmapOf _ _ _ _ hfd]
    exact hmap
  · exact (drop_koa (Ne.symm hk)).trans hj
  · rw [hmapOf _ _ _ _ (Ne.symm hfd)]
    exact hmap'
  · unfold dropFd
    rw [drop_setMap, drop_setMap, drop_comm hk]
    refine KoaTable.ext rfl ?_ rfl
    exact Function.update_comm hfd _ _ _

/-- whatever a descriptor or an inode number leads to has a reference -/
structure Ok (t : KoaTable N) : Prop where
  mapped : ∀ fd k, t.map fd = some k → ∃ i, t.koa k = some i ∧ 1 ≤ i.refcnt
  cached : ∀ ino k, t.aliasCache ino = some k → ∃ i, t.koa k = some i ∧ 1 ≤ i.refcnt

theorem Ok.create {type : KoaType} {ino : UInt32} (h : t.Ok) (hk : t.koa k = none) :
    (t.create k type ino).Ok := by
  have hkeep : ∀ x, (∃ i, t.koa x = some i ∧ 1 ≤ i.refcnt) →
      ∃ i, (t.create k type ino).koa x = some i ∧ 1 ≤ i.refcnt := by
    rintro x ⟨i, hi, hr⟩
    have hx : x ≠ k := by
      rintro rfl
      rw [hk] at hi
      cases hi
    exact ⟨i, (Function.update_of_ne hx _ _).trans hi, hr⟩
  exact ⟨fun fd x hx => hkeep x (h.mapped fd x hx), fun ino x hx => hkeep x (h.cached ino x hx)⟩

theorem Ok.take (h : t.Ok) (hr : 0 ≤ i.refcnt) : (t.take k i).Ok := by
  have hself : ∃ j, (t.take k i).koa k = some j ∧ 1 ≤ j.refcnt :=
    ⟨_, Function.update_self _ _ _, by dsimp only; omega⟩
  have hkeep : ∀ x, (∃ j, t.koa x = some j ∧ 1 ≤ j.refcnt) →
      ∃ j, (t.take k i).koa x = some j ∧ 1 ≤ j.refcnt := by
    rintro x ⟨j, hj, hr⟩
    by_cases hx : x = k
    · rw [hx]
      exact hself
    · exact ⟨j, (Function.update_of_ne hx _ _).trans hj, hr⟩
  refine ⟨fun fd x hx => hkeep x (h.mapped fd x hx), fun ino x hx => ?_⟩
  change (if _ then _ else _ : UInt32 → Option (Fin N)) ino = some x at hx
  split at hx
  · by_cases hi : ino = i.stIno
    · rw [hi, Function.update_self] at hx
      cases hx
      exact hself
    · rw [Function.update_of_ne hi] at hx
      exact hkeep x (h.cached ino x hx)
  · exact hkeep x (h.cached ino x hx)

theorem Ok.takeFd (h : t.Ok) (hr : 0 ≤ i.refcnt) : (t.takeFd k i fd).Ok := by
  have ht : (t.take k { i with fds := i.fds ++ [fd] }).Ok := h.take hr
  refine ⟨fun fd' x hx => ?_, ht.cached⟩
  by_cases hfd : fd' = fd
  · rw [hfd, show (t.takeFd k i fd).map fd = some k from Function.update_self _ _ _] at hx
    cases hx
    exact ⟨_, Function.update_self _ _ _, by dsimp only; omega⟩
  · exact ht.mapped fd' x ((Function.update_of_ne hfd _ _).symm.trans hx)

end KoaTable

end XCalls
