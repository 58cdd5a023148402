import XCalls.XCall.SavedPaths

/-!
# Saved path names are replayed

* `InPlace`        an action finds its arguments, within a range of the memory;
* `saves_inPlace`  those of a call whose names fit into the arrays;
* `PathEvent`, `pathRun`   a transaction of calls on path names, with what the application does to
                   its memory between them;
* `SavedInv`       the arguments of all calls are below the level of the linear buffer;
* `paths_replayed` every commit and undo action replays the names of its call;
* `rename_overwrites_newpath`   a long name overwrites its neighbour.
-/

set_option linter.unusedSectionVars false

namespace XCalls
open Prog Memory
variable {T : Type} [DecidableEq T] {n N : Nat}

/-! ## what an action finds -/

def Intact (addr : Fin N → UInt32) (μ : Memory) (x : XAction N × Nat) : Prop :=
  ∀ f ∈ x.1.reads addr, f.2.At μ (x.2 + f.1)

structure InPlace (addr : Fin N → UInt32) (μ : Memory) (lo hi : Nat) (x : XAction N × Nat) :
    Prop where
  lo : lo ≤ x.2
  hi : ∀ f ∈ x.1.reads addr, x.2 + f.1 + f.2.bytes.length ≤ hi
  intact : Intact addr μ x

section
variable {addr : Fin N → UInt32} {junk : UInt32 × List UInt8} {μ ν : Memory} {lo lo' hi hi' A : Nat}
  {x : XAction N × Nat}

theorem InPlace.congr (h : InPlace addr μ lo hi x) (hν : ∀ a, lo ≤ a → a < hi → ν a = μ a) :
    InPlace addr ν lo hi x := by
  refine ⟨h.lo, h.hi, fun f hf => (h.intact f hf).congr fun a h1 h2 => hν a ?_ ?_⟩
  · have := h.lo
    omega
  · have := h.hi f hf
    omega

theorem InPlace.mono (h : InPlace addr μ lo hi x) (hlo : lo' ≤ lo) (hle : hi ≤ hi') :
    InPlace addr μ lo' hi' x :=
  ⟨Nat.le_trans hlo h.lo, fun f hf => Nat.le_trans (h.hi f hf) hle, h.intact⟩

theorem inPlace_write {a : XAction N} {fs : List (Nat × Field)} {size : Nat}
    (hpair : fs.Pairwise fun f g => Apart g.1 g.2.bytes.length f.1 f.2.bytes.length)
    (hfs : ∀ f ∈ fs, f.1 + f.2.bytes.length ≤ size ∧ f.2.Ends) (hreads : a.reads addr ⊆ fs) :
    InPlace addr (write μ A fs) A (A + size) (a, A) := by
  refine ⟨Nat.le_refl A, fun f hf => ?_, fun f hf => ?_⟩
  · have := (hfs f (hreads hf)).1
    omega
  · obtain ⟨l, r, rfl⟩ := List.append_of_mem (hreads hf)
    have hr := (List.pairwise_cons.mp (List.pairwise_append.mp hpair).2.1).1
    exact at_write (hfs f (hreads hf)).2 hr

theorem createCase1_inPlace (junk : UInt32 × List UInt8) {fd : Nat} {koa : Fin N} {p : Path}
    (hp : FitsArray p) (hend : 0 ∉ pathBytes p) :
    InPlace addr (write μ A (XAction.saves addr junk (.createCase1Undo fd koa p))) A (A + 136)
      (.createCase1Undo fd koa p, A) := by
  have hlen : (pathBytes p).length + 1 ≤ 128 := hp
  refine inPlace_write ?_ ?_ ?_
  · simp [XAction.saves, Apart]
  · simp [XAction.saves, Field.Ends, hend]
    omega
  · simp [XAction.saves, XAction.reads]

theorem createCase2_inPlace (junk : UInt32 × List UInt8) (args : CreateCase2Args N)
    (ht : FitsArray args.tempPathname) (htend : 0 ∉ pathBytes args.tempPathname)
    (hp : FitsArray args.originalPathname) (hend : 0 ∉ pathBytes args.originalPathname) {a : XAction N}
    (ha : a = .createCase2Commit args ∨ a = .createCase2Undo args) :
    InPlace addr (write μ A (XAction.saves addr junk (.createCase2Commit args))) A (A + 264)
      (a, A) := by
  have h1 : (pathBytes args.tempPathname).length + 1 ≤ 128 := ht
  have h2 : (pathBytes args.originalPathname).length + 1 ≤ 128 := hp
  refine inPlace_write ?_ ?_ ?_
  · simp [XAction.saves, Apart]
    omega
  · simp [XAction.saves, Field.Ends, htend, hend]
    omega
  · rcases ha with rfl | rfl <;> simp [XAction.saves, XAction.reads]

theorem rename_inPlace (junk : UInt32 × List UInt8) (args : RenameArgs N)
    (ht : ∀ k ∈ args.newpathKoa, FitsArray k.2) (htend : ∀ k ∈ args.newpathKoa, 0 ∉ pathBytes k.2)
    (hnew : FitsArray args.newpath)
    (hnewend : 0 ∉ pathBytes args.newpath) (hold : FitsArray args.oldpath)
    (holdend : 0 ∉ pathBytes args.oldpath) {a : XAction N}
    (ha : a = .renameCommit args ∨ a = .renameUndo args) :
    InPlace addr (write μ A (XAction.saves addr junk (.renameCommit args))) A (A + 396) (a, A) := by
  obtain ⟨oldpathKoa, newpathKoa, oldpath, newpath⟩ := args
  have h1 : (pathBytes newpath).length + 1 ≤ 128 := hnew
  have h2 : (pathBytes oldpath).length + 1 ≤ 128 := hold
  cases newpathKoa with
  | none =>
    -- what is written for `temppath` is not read
    show InPlace addr (write (store μ (A + 268) (Field.string junk.2).bytes) A
      [(140, .string (pathBytes newpath)), (12, .string (pathBytes oldpath)), (4, .word junk.1),
        (0, .word (addr oldpathKoa)), (8, .word 0)]) A (A + 396) (a, A)
    refine inPlace_write ?_ ?_ ?_
    · simp [Apart]
      omega
    · simp [Field.Ends, hnewend, holdend]
      omega
    · rcases ha with rfl | rfl <;> simp [XAction.reads]
  | some k =>
    have h3 : (pathBytes k.2).length + 1 ≤ 128 := ht k rfl
    refine inPlace_write ?_ ?_ ?_
    · simp [XAction.saves, Apart]
      omega
    · simp [XAction.saves, Field.Ends, hnewend, holdend, htend k rfl]
      omega
    · rcases ha with rfl | rfl <;> simp [XAction.saves, XAction.reads]

theorem unlink_inPlace (junk : UInt32 × List UInt8) {koa : Fin N} {p : Path} (hp : FitsArray p)
    (hend : 0 ∉ pathBytes p) :
    InPlace addr (write μ A (XAction.saves addr junk (.unlinkCommit koa p))) A (A + 136)
      (.unlinkCommit koa p, A) := by
  have hlen : (pathBytes p).length + 1 ≤ 128 := hp
  refine inPlace_write ?_ ?_ ?_
  · simp [XAction.saves, Apart]
  · simp [XAction.saves, Field.Ends, hend]
    omega
  · simp [XAction.saves, XAction.reads]

/-- the actions of a call whose names fit -/
theorem saves_inPlace {temp : Path} {c : XCall} {size : UInt32} {cs us : List (XAction N × Int32)}
    (hs : Saves temp c size cs us) (hc : ∀ p ∈ c.names, FitsArray p ∧ 0 ∉ pathBytes p)
    (ht : FitsArray temp ∧ 0 ∉ pathBytes temp) :
    ∀ x ∈ cs ++ us, InPlace addr (write μ A ((cs ++ us).flatMap fun x => x.1.saves addr junk)) A
      (A + size.toNat) (x.1, A) := by
  intro x hx
  have hfields : ∀ y z : XAction N × Int32, z.1.saves addr junk = [] →
      ([y] ++ [z]).flatMap (fun x => x.1.saves addr junk) = y.1.saves addr junk := by
    intro y z hz
    simp [hz]
  cases hs with
  | createNew fd koa p =>
    obtain ⟨hp, hend⟩ := hc p List.mem_cons_self
    rw [List.mem_singleton.mp hx]
    exact createCase1_inPlace junk hp hend
  | createOver fd koa p =>
    obtain ⟨hp, hend⟩ := hc p List.mem_cons_self
    have ha : x.1 = .createCase2Commit ⟨fd, koa, temp, p⟩ ∨
        x.1 = .createCase2Undo ⟨fd, koa, temp, p⟩ := by
      rcases List.mem_cons.mp hx with rfl | hx
      · exact Or.inl rfl
      · rw [List.mem_singleton.mp hx]
        exact Or.inr rfl
    rw [hfields _ _ rfl, show createCase2ArgsSize.toNat = 264 from rfl]
    exact createCase2_inPlace junk ⟨fd, koa, temp, p⟩ ht.1 ht.2 hp hend ha
  | rename koa koa' old new =>
    obtain ⟨hold, holdend⟩ := hc old List.mem_cons_self
    obtain ⟨hnew, hnewend⟩ := hc new (List.mem_cons_of_mem old List.mem_cons_self)
    have hk : ∀ k ∈ koa'.map (·, temp), k.2 = temp := by
      intro k hk
      obtain ⟨k', -, rfl⟩ := Option.map_eq_some_iff.mp hk
      rfl
    have ha : x.1 = .renameCommit ⟨koa, koa'.map (·, temp), old, new⟩ ∨
        x.1 = .renameUndo ⟨koa, koa'.map (·, temp), old, new⟩ := by
      rcases List.mem_cons.mp hx with rfl | hx
      · exact Or.inl rfl
      · rw [List.mem_singleton.mp hx]
        exact Or.inr rfl
    rw [hfields _ _ rfl, show renameArgsSize.toNat = 396 from rfl]
    refine rename_inPlace junk ⟨koa, koa'.map (·, temp), old, new⟩ (fun k h => ?_) (fun k h => ?_)
      hnew hnewend hold holdend ha
    · rw [hk k h]
      exact ht.1
    · rw [hk k h]
      exact ht.2
  | unlink koa p =>
    obtain ⟨hp, hend⟩ := hc p List.mem_cons_self
    rw [List.mem_singleton.mp hx]
    exact unlink_inPlace junk hp hend

end

/-! ## a transaction -/

/-- what the application does: it writes to its memory, or calls one of the calls on path names -/
inductive PathEvent where
  | change (app : Memory)
  | call (c : XCall) (result : Option Nat) (answers : Answers) (junk : UInt32 × List UInt8)

/-- what `mktemp` makes of the template: the last six characters are replaced, or the name is empty
when there is none left -/
def IsTempName (p : Path) : Prop :=
  p = "" ∨ ∃ s : List Char,
    s.length = 6 ∧ p.toList = tempTemplate.toList.take 16 ++ s ∧ IsPathname p

namespace PathEvent

/-- the calls are given path names, and `mktemp` does what it says -/
def Valid : PathEvent → Prop
  | change _ => True
  | call c _ answers _ => c.OnNames ∧ (∀ p ∈ c.names, IsPathname p) ∧ IsTempName answers.temp

/-- the names of a call fit, seen from the state before it -/
def Fits : PathEvent → XMach T n N × SavedMem N → Prop
  | change _, _ => True
  | call c _ answers _, σ => (savedView (withAnswers σ.1 answers, σ.2)).Fits c

/-- the call registers the action -/
def Registers : PathEvent → XAction N → Prop
  | change _, _ => False
  | call c _ answers _, a => ∃ size cs us, Saves answers.temp c size cs us ∧
      a ∈ (cs ++ us).map Prod.fst

end PathEvent

/-- with the reason when the call aborts the transaction -/
def pathEvent (addr : Fin N → UInt32) : PathEvent → XMach T n N × SavedMem N →
    Option (Option AbortReason × (XMach T n N × SavedMem N))
  | .change app, σ => some (none, (σ.1, σ.2.change σ.1.txd.bufferLinear.sizeMax.toNat app))
  | .call c result answers junk, σ =>
    match run (savedHandle addr junk) (c.prog result) (withAnswers σ.1 answers, σ.2) with
    | some (.ok _, σ') => some (none, σ')
    | some (.error (.abort reason), σ') => some (some reason, σ')
    | _ => none

/-- the events one after the other, up to the one that aborts the transaction -/
def pathRun (addr : Fin N → UInt32) : List PathEvent → XMach T n N × SavedMem N →
    Option (Option AbortReason × (XMach T n N × SavedMem N))
  | [], σ => some (none, σ)
  | e :: es, σ =>
    match pathEvent addr e σ with
    | some (none, σ') => pathRun addr es σ'
    | r => r

/-- in every step of the run the names fit, but for one that aborts the transaction -/
def AllFit (addr : Fin N → UInt32) : List PathEvent → XMach T n N × SavedMem N → Prop
  | [], _ => True
  | e :: es, σ => ∀ σ', pathEvent addr e σ = some (none, σ') → e.Fits σ ∧ AllFit addr es σ'

theorem no_nul_pathBytes {p : Path} (h : IsPathname p) : 0 ∉ pathBytes p := by
  intro h0
  obtain ⟨c, hc, hz⟩ := List.mem_map.mp h0
  obtain ⟨h1, h2⟩ := h c hc
  have hz : (UInt8.ofNat c.toNat).toNat = 0 := by
    rw [hz]
    rfl
  rw [UInt8.toNat_ofNat'] at hz
  omega

theorem tempName_fits {p : Path} (h : IsTempName p) : FitsArray p ∧ 0 ∉ pathBytes p := by
  rcases h with rfl | ⟨s, hs, hp, hname⟩
  · exact ⟨by decide, by decide⟩
  · refine ⟨?_, no_nul_pathBytes hname⟩
    have hlen : (pathBytes p).length ≤ 22 := by
      rw [pathBytes, List.length_map, hp, List.length_append, hs]
      have := List.length_take_le 16 tempTemplate.toList
      omega
    show (pathBytes p).length + 1 ≤ 128
    omega

/-! ## the invariant -/

/-- since `v₀` the events `done` have been run: the actions of the calls find their arguments below
the level, and what was there at the start is unchanged -/
structure SavedInv (addr : Fin N → UInt32) (v₀ : SavedView N) (done : List PathEvent)
    (v : SavedView N) : Prop where
  retryable : v.xactstate = .retryable
  size : v.linear.sizeMax = bufferLinearSize
  level : v.linear.curLen ≤ v.linear.sizeMax
  base : v.mem.base = v₀.mem.base
  start : v₀.linear.curLen.toNat ≤ v.linear.curLen.toNat
  below : ∀ a, v₀.mem.base ≤ a → a < v₀.mem.base + v₀.linear.curLen.toNat →
    v.mem.bytes a = v₀.mem.bytes a
  commits : v.commits.map Prod.fst = v₀.commits.map Prod.fst ++ v.mem.commits.map Prod.fst
  undos : v.undos.map Prod.fst = v₀.undos.map Prod.fst ++ v.mem.undos.map Prod.fst
  inPlace : ∀ x ∈ v.mem.commits ++ v.mem.undos,
    InPlace addr v.mem.bytes v.mem.base (v.mem.base + v.linear.curLen.toNat) x
  registered : ∀ x ∈ v.mem.commits ++ v.mem.undos, ∃ e ∈ done, e.Registers x.1

namespace SavedInv
variable {addr : Fin N → UInt32} {junk : UInt32 × List UInt8} {v₀ v v' : SavedView N}
  {done : List PathEvent}

theorem rests (h : SavedInv addr v₀ done v) (hv : v.Rests v') : SavedInv addr v₀ done v' := by
  obtain ⟨k, a, rfl⟩ := hv
  exact ⟨h.retryable, h.size, h.level, h.base, h.start, h.below, h.commits, h.undos, h.inPlace,
    h.registered⟩

theorem mono (h : SavedInv addr v₀ done v) {done' : List PathEvent} (hsub : done ⊆ done') :
    SavedInv addr v₀ done' v :=
  { h with
    registered := fun x hx => by
      obtain ⟨e, he, hr⟩ := h.registered x hx
      exact ⟨e, hsub he, hr⟩ }

theorem change (h : SavedInv addr v₀ done v) (app : Memory) :
    SavedInv addr v₀ done { v with mem := v.mem.change v.linear.sizeMax.toNat app } := by
  have hlevel := UInt32.le_iff_toNat_le.mp h.level
  have hsame : ∀ a, v.mem.base ≤ a → a < v.mem.base + v.linear.curLen.toNat →
      (v.mem.change v.linear.sizeMax.toNat app).bytes a = v.mem.bytes a :=
    fun a h1 h2 => if_pos ⟨h1, by omega⟩
  refine ⟨h.retryable, h.size, h.level, h.base, h.start, fun a h1 h2 => ?_, h.commits, h.undos,
    fun x hx => (h.inPlace x hx).congr hsame, h.registered⟩
  have hbase := h.base
  have hstart := h.start
  rw [← h.below a h1 h2]
  exact hsame a (by omega) (by omega)

/-- a call saves its arguments behind the level -/
theorem save (h : SavedInv addr v₀ done v) {c : XCall} {result : Option Nat} {answers : Answers}
    {size : UInt32} {cs us : List (XAction N × Int32)} (hs : Saves answers.temp c size cs us)
    (hc : ∀ p ∈ c.names, FitsArray p ∧ 0 ∉ pathBytes p)
    (ht : FitsArray answers.temp ∧ 0 ∉ pathBytes answers.temp)
    (hroom : ¬ v.linear.curLen + size > v.linear.sizeMax) :
    SavedInv addr v₀ (done ++ [.call c result answers junk])
      ((v.alloc size).register addr junk cs us) := by
  have hsize : size.toNat < 2 ^ 31 := by cases hs <;> decide
  obtain ⟨hlen, hmax⟩ := linear_fits h.size h.level hsize hroom
  have hbase := h.base
  have hstart := h.start
  obtain ⟨A, hA⟩ : ∃ A, A = v.mem.base + v.linear.curLen.toNat := ⟨_, rfl⟩
  obtain ⟨fs, hfs⟩ : ∃ fs, fs = (cs ++ us).flatMap fun x => x.1.saves addr junk := ⟨_, rfl⟩
  have hlow : ∀ a, a < A → write v.mem.bytes A fs a = v.mem.bytes a := fun a => write_eq_of_lt fs
  have hnew : ∀ x ∈ cs ++ us,
      InPlace addr (write v.mem.bytes A fs) A (A + size.toNat) (x.1, A) := by
    rw [hfs]
    exact saves_inPlace hs hc ht
  -- an action was registered before, or by this call
  have hmem : ∀ x ∈ (v.mem.commits ++ cs.map fun x => (x.1, A)) ++
      (v.mem.undos ++ us.map fun x => (x.1, A)),
      x ∈ v.mem.commits ++ v.mem.undos ∨ ∃ y ∈ cs ++ us, x = (y.1, A) := by
    intro x hx
    simp only [List.mem_append, List.mem_map] at hx ⊢
    rcases hx with (hx | ⟨y, hy, rfl⟩) | (hx | ⟨y, hy, rfl⟩)
    · exact Or.inl (Or.inl hx)
    · exact Or.inr ⟨y, Or.inl hy, rfl⟩
    · exact Or.inl (Or.inr hx)
    · exact Or.inr ⟨y, Or.inr hy, rfl⟩
  have hview : ((v.alloc size).register addr junk cs us) = { v with
      linear := { v.linear with curLen := v.linear.curLen + size }
      commits := v.commits ++ cs
      undos := v.undos ++ us
      mem := { v.mem with
        bytes := write v.mem.bytes A fs
        args := A
        commits := v.mem.commits ++ cs.map fun x => (x.1, A)
        undos := v.mem.undos ++ us.map fun x => (x.1, A) } } := by
    rw [hfs, hA]
    rfl
  rw [hview]
  refine ⟨h.retryable, h.size, ?_, h.base, ?_, fun a h1 h2 => ?_, ?_, ?_, fun x hx => ?_,
    fun x hx => ?_⟩
  · rw [UInt32.le_iff_toNat_le, hlen, h.size]
    exact hmax
  · rw [hlen]
    omega
  · show write v.mem.bytes A fs a = _
    rw [hlow a (by omega)]
    exact h.below a h1 h2
  · simp [h.commits]
  · simp [h.undos]
  · show InPlace addr (write v.mem.bytes A fs) v.mem.base
      (v.mem.base + (v.linear.curLen + size).toNat) x
    rw [hlen]
    rcases hmem x hx with hold | ⟨y, hy, rfl⟩
    · have hkept := (h.inPlace x hold).congr fun a _ h2 => hlow a (by omega)
      exact hkept.mono (Nat.le_refl _) (by omega)
    · exact (hnew y hy).mono (by omega) (by omega)
  · rcases hmem x hx with hold | ⟨y, hy, rfl⟩
    · obtain ⟨e, he, hr⟩ := h.registered x hold
      exact ⟨e, List.mem_append_left _ he, hr⟩
    · exact ⟨_, List.mem_append_right _ List.mem_cons_self, size, cs, us, hs,
        List.mem_map_of_mem hy⟩

end SavedInv

section
variable {addr : Fin N → UInt32} {junk : UInt32 × List UInt8}

theorem call_saved {c : XCall} (hc : c.OnNames) (result : Option Nat) {v : SavedView N}
    (hx : v.xactstate = .retryable) :
    wp (savedStep addr junk) (c.prog result : XProg n N Int) (SavedPost addr junk c v) v := by
  cases c with
  | create p => exact xCreate_saved p result hx
  | rename old new => exact xRename_saved old new result hx
  | unlink p => exact xUnlink_saved p result hx
  | _ => exact hc.elim

theorem pathEvent_inv {v₀ : SavedView N} {done : List PathEvent} {e : PathEvent}
    {σ σ' : XMach T n N × SavedMem N} {out : Option AbortReason} (he : e.Valid)
    (hfit : out = none → e.Fits σ) (h : SavedInv addr v₀ done (savedView σ))
    (hstep : pathEvent addr e σ = some (out, σ')) :
    SavedInv addr v₀ (done ++ [e]) (savedView σ') := by
  cases e with
  | change app =>
    cases hstep
    exact (h.change app).mono (List.subset_append_left _ _)
  | call c result answers junk =>
    obtain ⟨hc, hnames, htemp⟩ := he
    have hv : SavedInv addr v₀ done (savedView (withAnswers σ.1 answers, σ.2)) :=
      h.rests ⟨_, answers, rfl⟩
    have hpost : ∀ {r : Except Stop Int} {σ₁ : XMach T n N × SavedMem N},
        run (savedHandle addr junk) (c.prog result) (withAnswers σ.1 answers, σ.2) = some (r, σ₁) →
        SavedPost addr junk c (savedView (withAnswers σ.1 answers, σ.2)) r (savedView σ₁) :=
      fun h1 => run_saved (call_saved hc result hv.retryable) h1
    unfold pathEvent at hstep
    dsimp only at hstep
    split at hstep
    · rename_i r σ₁ h1
      cases hstep
      rcases hpost h1 with hrests | ⟨size, cs, us, hs, hopen, hroom, hrests⟩
      · exact (hv.rests hrests).mono (List.subset_append_left _ _)
      · have hfits : ∀ p ∈ c.names, FitsArray p := (hfit rfl).resolve_right hopen
        have hc : ∀ p ∈ c.names, FitsArray p ∧ 0 ∉ pathBytes p :=
          fun p hp => ⟨hfits p hp, no_nul_pathBytes (hnames p hp)⟩
        exact (hv.save hs hc (tempName_fits htemp) hroom).rests hrests
    · rename_i reason σ₁ h1
      cases hstep
      exact (hv.rests (hpost h1)).mono (List.subset_append_left _ _)
    · cases hstep

/-- **Every transaction keeps the invariant.** -/
theorem pathRun_inv {v₀ : SavedView N} {es : List PathEvent} (hes : ∀ e ∈ es, e.Valid) :
    ∀ {done : List PathEvent} {σ σ' : XMach T n N × SavedMem N} {out : Option AbortReason},
      AllFit addr es σ → SavedInv addr v₀ done (savedView σ) →
      pathRun addr es σ = some (out, σ') → SavedInv addr v₀ (done ++ es) (savedView σ') := by
  induction es with
  | nil =>
    intro done σ σ' out _ h hrun
    cases hrun
    rw [List.append_nil]
    exact h
  | cons e es ih =>
    intro done σ σ' out hfit h hrun
    have hstep : ∀ {o : Option AbortReason} {σ₁ : XMach T n N × SavedMem N},
        pathEvent addr e σ = some (o, σ₁) → SavedInv addr v₀ (done ++ [e]) (savedView σ₁) := by
      intro o σ₁ h1
      refine pathEvent_inv (hes e List.mem_cons_self) ?_ h h1
      rintro rfl
      exact (hfit σ₁ h1).1
    rw [List.append_cons]
    unfold pathRun at hrun
    split at hrun
    · rename_i σ₁ h1
      exact ih (fun x hx => hes x (List.mem_cons_of_mem e hx)) (hfit σ₁ h1).2 (hstep h1) hrun
    · exact (hstep hrun).mono (List.subset_append_left _ _)

theorem Saves.reads_ne {temp : Path} {c : XCall} {size : UInt32} {cs us : List (XAction N × Int32)}
    (hs : Saves temp c size cs us) {a : XAction N} (ha : a ∈ (cs ++ us).map Prod.fst) :
    a.reads addr ≠ [] := by
  cases hs with
  | createNew | unlink =>
    rw [List.mem_singleton.mp ha]
    exact fun h => nomatch h
  | createOver | rename =>
    rcases List.mem_cons.mp ha with rfl | ha
    · exact fun h => nomatch h
    · rw [List.mem_singleton.mp ha]
      exact fun h => nomatch h

end

/-! ## commit and abort -/

/-- the functions of the action find their arguments as they were given, and pass on no other names
than those -/
structure Replays (n : Nat) (addr : Fin N → UInt32) (μ : Memory) (x : XAction N × Nat) : Prop where
  intact : Intact addr μ x
  passes : All (fun _ (i : Instr n N _) => i.PassesOnly (x.1.reads addr)) x.1.prog

/-- **Saved path names.**  In a retryable transaction any number of files are created, renamed and
unlinked, and the application changes its memory in between.  When the names of every call that
saves any fit into the arrays, every commit and undo action of these calls finds its arguments as
they were given to the call that registered it, the names byte for byte, and what the linear buffer
held before is as it was. -/
theorem paths_replayed (addr : Fin N → UInt32) (σ : XMach T n N × SavedMem N)
    (hx : σ.1.world.xactstate = .retryable)
    (hsize : σ.1.txd.bufferLinear.sizeMax = bufferLinearSize)
    (hlevel : σ.1.txd.bufferLinear.curLen ≤ σ.1.txd.bufferLinear.sizeMax)
    (hcommits : σ.2.commits = []) (hundos : σ.2.undos = []) (es : List PathEvent)
    (hes : ∀ e ∈ es, e.Valid) (hfit : AllFit addr es σ) (out : Option AbortReason)
    (σ' : XMach T n N × SavedMem N) (hrun : pathRun addr es σ = some (out, σ')) :
    (actions σ'.1.txd).1.map Prod.fst
        = (actions σ.1.txd).1.map Prod.fst ++ σ'.2.commits.map Prod.fst ∧
      (actions σ'.1.txd).2.map Prod.fst
        = (actions σ.1.txd).2.map Prod.fst ++ σ'.2.undos.map Prod.fst ∧
      (∀ x ∈ σ'.2.commits ++ σ'.2.undos,
        Replays n addr σ'.2.bytes x ∧ ∃ e ∈ es, e.Registers x.1) ∧
      ∀ a, σ.2.base ≤ a → a < σ.2.base + σ.1.txd.bufferLinear.curLen.toNat →
        σ'.2.bytes a = σ.2.bytes a := by
  have hstart : SavedInv addr (savedView σ) [] (savedView σ) := by
    have hnone : ∀ x, x ∉ (savedView σ).mem.commits ++ (savedView σ).mem.undos := by
      intro x hx
      rw [show (savedView σ).mem.commits = [] from hcommits,
        show (savedView σ).mem.undos = [] from hundos] at hx
      cases hx
    refine ⟨hx, hsize, hlevel, rfl, Nat.le_refl _, fun _ _ _ => rfl, ?_, ?_,
      fun x hx => absurd hx (hnone x), fun x hx => absurd hx (hnone x)⟩
    · rw [show (savedView σ).mem.commits = [] from hcommits]
      exact (List.append_nil _).symm
    · rw [show (savedView σ).mem.undos = [] from hundos]
      exact (List.append_nil _).symm
  have hinv := pathRun_inv hes hfit hstart hrun
  refine ⟨hinv.commits, hinv.undos, fun x hx => ?_, hinv.below⟩
  obtain ⟨e, he, hr⟩ := hinv.registered x hx
  refine ⟨⟨(hinv.inPlace x hx).intact, prog_reads addr ?_⟩, e, he, hr⟩
  cases e with
  | change => exact hr.elim
  | call c result answers junk =>
    obtain ⟨size, cs, us, hs, ha⟩ := hr
    exact hs.reads_ne ha

theorem allFit_of_fits {addr : Fin N → UInt32} {es : List PathEvent}
    (h : ∀ e ∈ es, ∀ σ : XMach T n N × SavedMem N, e.Fits σ) (σ : XMach T n N × SavedMem N) :
    AllFit addr es σ := by
  induction es generalizing σ with
  | nil => trivial
  | cons e es ih =>
    exact fun σ' _ => ⟨h e List.mem_cons_self σ, ih (fun e he => h e (List.mem_cons_of_mem _ he)) σ'⟩

/-- the transaction begins, and the linear buffer lies at address 4096 -/
def savedStart (k : Kernel) : XMach Unit 8 8 × SavedMem 8 :=
  (xBegin (smallMach k), ⟨fun _ => 0, 4096, 0, [], []⟩)

def poolAddr (k : Fin 8) : UInt32 := 1024 + UInt32.ofNat k

theorem isPathname_of_all {p : Path}
    (h : (p.toList.all fun c => decide (0 < c.toNat ∧ c.toNat < 256)) = true) : IsPathname p :=
  fun c hc => of_decide_eq_true (List.all_eq_true.mp h c hc)

theorem smallAnswers_temp : IsTempName smallAnswers.temp :=
  Or.inr ⟨"000001".toList, by decide, by decide, isPathname_of_all (by decide +kernel)⟩

/-- a file is renamed over another one, and the other name removed -/
def shortNames : List PathEvent :=
  [.call (.rename "a" "b") none smallAnswers (0, []), .change fun _ => 7,
    .call (.unlink "b") none smallAnswers (0, [])]

/-- its arguments, with KOA 4 for the file that was at `b` -/
def shortArgs : RenameArgs 8 := ⟨3, some (4, smallAnswers.temp), "a", "b"⟩

theorem paths_replayed_shortNames :
    ∃ σ, pathRun poolAddr shortNames (savedStart smallKernel) = some (none, σ) ∧
      σ.2.commits = [(.renameCommit shortArgs, 4096), (.unlinkCommit 3 "b", 4492)] ∧
      σ.2.undos = [(.renameUndo shortArgs, 4096)] ∧
      ∀ x ∈ σ.2.commits ++ σ.2.undos, Replays 8 poolAddr σ.2.bytes x := by
  have hall : ((pathRun poolAddr shortNames (savedStart smallKernel)).map fun r => decide
      (r.1 = none ∧ r.2.2.commits = [(.renameCommit shortArgs, 4096), (.unlinkCommit 3 "b", 4492)] ∧
        r.2.2.undos = [(.renameUndo shortArgs, 4096)])) = some true := by
    decide +kernel
  obtain ⟨⟨out, σ⟩, hrun, hdec⟩ := Option.map_eq_some_iff.mp hall
  obtain ⟨hnone, hcommits, hundos⟩ := of_decide_eq_true hdec
  have hout : out = none := hnone
  subst hout
  have hname : ∀ p ∈ ["a", "b"], IsPathname p := by
    intro p hp
    simp only [List.mem_cons, List.not_mem_nil, or_false] at hp
    rcases hp with rfl | rfl
    · exact isPathname_of_all (by decide +kernel)
    · exact isPathname_of_all (by decide +kernel)
  have hvalid : ∀ e ∈ shortNames, e.Valid := by
    intro e he
    simp only [shortNames, List.mem_cons, List.not_mem_nil, or_false] at he
    rcases he with rfl | rfl | rfl
    · exact ⟨trivial, hname, smallAnswers_temp⟩
    · trivial
    · exact ⟨trivial, fun p hp => hname p (List.mem_cons_of_mem _ hp), smallAnswers_temp⟩
  have hfit : ∀ e ∈ shortNames, ∀ σ : XMach Unit 8 8 × SavedMem 8, e.Fits σ := by
    intro e he σ
    simp only [shortNames, List.mem_cons, List.not_mem_nil, or_false] at he
    rcases he with rfl | rfl | rfl
    · exact Or.inl (by decide)
    · trivial
    · exact Or.inl (by decide)
  obtain ⟨-, -, h, -⟩ := paths_replayed poolAddr (savedStart smallKernel) rfl rfl (by decide) rfl
    rfl shortNames hvalid (allFit_of_fits hfit _) none σ hrun
  exact ⟨σ, hrun, hcommits, hundos, fun x hx => (h x hx).1⟩

theorem isPathname_replicate (k : Nat) {c d : Char} (hc : 0 < c.toNat ∧ c.toNat < 256)
    (hd : 0 < d.toNat ∧ d.toNat < 256) :
    IsPathname (String.ofList (List.replicate k c ++ [d])) := by
  intro x hx
  rw [String.toList_ofList] at hx
  rcases List.mem_append.mp hx with hx | hx
  · rw [List.eq_of_mem_replicate hx]
    exact hc
  · rw [List.mem_singleton.mp hx]
    exact hd

/-- a name of 129 characters -/
def longName : Path := String.ofList (List.replicate 128 'd' ++ ['x'])

theorem firstIno_ne : (1 : UInt32) ≠ 0 := by decide

/-- `smallKernel` with the long name for its first file -/
def longKernel : Kernel :=
  { smallKernel with names := fun p => if p = longName then some ⟨1, 1, firstIno_ne⟩ else none }

def longRename : List PathEvent := [.call (.rename longName "new") none smallAnswers (0, [])]

/-- **`x_rename` overwrites the new name with the end of the old one**: abort would remove `x`. -/
theorem rename_overwrites_newpath :
    ∃ σ, (∀ e ∈ longRename, e.Valid) ∧
      pathRun poolAddr longRename (savedStart longKernel) = some (none, σ) ∧
      σ.2.undos = [(.renameUndo ⟨3, none, longName, "new"⟩, 4096)] ∧
      StringAt σ.2.bytes (4096 + 140) (pathBytes "x") ∧
      ¬ Replays 8 poolAddr σ.2.bytes (.renameUndo ⟨3, none, longName, "new"⟩, 4096) := by
  have hall : ((pathRun poolAddr longRename (savedStart longKernel)).map fun r => decide
      (r.1 = none ∧ r.2.2.undos = [(.renameUndo ⟨3, none, longName, "new"⟩, 4096)] ∧
        load r.2.2.bytes (4096 + 140) 2 = [120, 0])) = some true := by
    decide +kernel
  obtain ⟨⟨out, σ⟩, hrun, hdec⟩ := Option.map_eq_some_iff.mp hall
  obtain ⟨hnone, hundos, hbytes⟩ := of_decide_eq_true hdec
  have hout : out = none := hnone
  subst hout
  have hx : StringAt σ.2.bytes (4096 + 140) (pathBytes "x") := ⟨hbytes, by decide⟩
  refine ⟨σ, fun e he => ?_, hrun, hundos, hx, fun h => ?_⟩
  · rw [List.mem_singleton.mp he]
    refine ⟨trivial, fun p hp => ?_, smallAnswers_temp⟩
    rcases List.mem_cons.mp hp with hp | hp
    · rw [hp]
      exact isPathname_replicate 128 (by decide) (by decide)
    · rw [List.mem_singleton.mp hp]
      exact isPathname_of_all (by decide +kernel)
  · have hnew : StringAt σ.2.bytes (4096 + 140) (pathBytes "new") :=
      h.intact (140, .string (pathBytes "new")) (by simp [XAction.reads])
    exact absurd (hx.unique hnew) (by decide)

end XCalls
