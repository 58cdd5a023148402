import XCalls.XCall.Names

/-!
# What commit makes of the name space

`x_create` and the new name of `x_rename` take effect in place; the old name of `x_rename` and the
name of `x_unlink` are removed by commit actions.

* `inPlace`, `removed`   the calls in program order without the removals, and the removals;
* `sequential`     the same calls as plain system calls;
* `inPlace_eq_sequential`   both agree when no call names a path that an earlier one has removed;
* `commit_removes_last`     what a committed transaction leaves, for every sequence of calls.
-/

set_option linter.unusedSectionVars false

namespace XCalls
open Prog

/-! ## paths and contents -/

abbrev Contents := Path → Option (List UInt8)

def Kernel.contents (k : Kernel) : Contents := fun p => (k.names p).map k.content

theorem contents_eq_none {k : Kernel} {p : Path} : k.contents p = none ↔ k.names p = none :=
  Option.map_eq_none_iff

/-- a call without its removals -/
def inPlace1 (C : Contents) : XCall → Contents
  | .create p => Function.update C p (some [])
  | .rename old new => if C old = none then C else Function.update C new (C old)
  | _ => C

/-- the paths that a call removes -/
def removed1 (C : Contents) : XCall → List Path
  | .rename old _ => if C old = none then [] else [old]
  | .unlink p => if C p = none then [] else [p]
  | _ => []

def inPlace : List XCall → Contents → Contents
  | [], C => C
  | c :: cs, C => inPlace cs (inPlace1 C c)

def removed : List XCall → Contents → List Path
  | [], _ => []
  | c :: cs, C => removed1 C c ++ removed cs (inPlace1 C c)

/-- removals at the end -/
def without (R : List Path) (C : Contents) : Contents := fun p => if p ∈ R then none else C p

/-! ## the calls as system calls -/

def seqStep (k : Kernel) (c : Request) : Kernel :=
  match c.call with
  | .create p => (sysOpen k p creationFlags c.answers.file c.answers.fd).2
  | .rename old new => (sysRename k old new).2
  | .unlink p => (sysUnlink k p).2
  | _ => k

def sequential (cs : List Request) (k : Kernel) : Kernel := cs.foldl seqStep k

/-- new files are new, and `rename` stays on one device -/
def SeqOk : List Request → Kernel → Prop
  | [], _ => True
  | c :: cs, k =>
    ¬ k.Exists c.answers.file ∧
      (∀ old new, c.call = .rename old new → k.mount old = k.mount new) ∧ SeqOk cs (seqStep k c)

/-- no file has two names -/
def NoLinks (k : Kernel) : Prop := ∀ p q f, k.names p = some f → k.names q = some f → p = q

/-- no call names a path that an earlier one has removed -/
def Untouched : List XCall → Contents → List Path → Prop
  | [], _, _ => True
  | c :: cs, C, R =>
    (∀ p ∈ c.paths, p ∉ R) ∧ Untouched cs (inPlace1 C c) (R ++ removed1 C c)

/-- the renames that have an effect change the name -/
def Proper : List XCall → Contents → Prop
  | [], _ => True
  | c :: cs, C =>
    (∀ old new, c = .rename old new → C old ≠ none → old ≠ new) ∧ Proper cs (inPlace1 C c)

def seqStep1 (C : Contents) : XCall → Contents
  | .create p => Function.update C p (some [])
  | .rename old new =>
    if C old = none then C else Function.update (Function.update C new (C old)) old none
  | .unlink p => Function.update C p none
  | _ => C

section
variable {k : Kernel}

theorem contents_setName (p : Path) (f : Option FileId) :
    (k.setName p f).contents = Function.update k.contents p (f.map k.content) := by
  funext q
  by_cases hq : q = p
  · rw [hq, Function.update_self]
    show Option.map k.content (Function.update k.names p f p) = _
    rw [Function.update_self]
  · rw [Function.update_of_ne hq]
    show Option.map k.content (Function.update k.names p f q) = _
    rw [Function.update_of_ne hq]
    rfl

theorem contents_clear {f : FileId} {q : Path} (h : k.names q ≠ some f) :
    (k.clear f).contents q = k.contents q := by
  show Option.map (Function.update k.content f []) (k.names q) = Option.map k.content (k.names q)
  cases hq : k.names q with
  | none => rfl
  | some g =>
    have hne : g ≠ f := fun hg => h (hg ▸ hq)
    simp only [Option.map_some, Function.update_of_ne hne]

theorem contents_clear_self {f : FileId} {q : Path} (h : k.names q = some f) :
    (k.clear f).contents q = some [] := by
  show Option.map (Function.update k.content f []) (k.names q) = _
  rw [h, Option.map_some, Function.update_self]

/-- `open(O_CREAT|O_TRUNC)` on a file system without links -/
theorem contents_sysOpen {p : Path} {file : FileId} {fd : Nat} (hl : NoLinks k)
    (hf : ¬ k.Exists file) :
    (sysOpen k p creationFlags file fd).2.contents = Function.update k.contents p (some []) ∧
      NoLinks (sysOpen k p creationFlags file fd).2 := by
  cases hp : k.names p with
  | some f =>
    have hopen : (sysOpen k p creationFlags file fd).2 = (k.clear f).install f fd := by
      rw [sysOpen, hp]
      rfl
    rw [hopen]
    refine ⟨?_, hl⟩
    funext q
    show (k.clear f).contents q = _
    by_cases hq : q = p
    · rw [hq, Function.update_self, contents_clear_self hp]
    · rw [Function.update_of_ne hq]
      exact contents_clear fun h => hq (hl q p f h hp)
  | none =>
    have hopen : (sysOpen k p creationFlags file fd).2
        = ((k.setName p (some file)).clear file).install file fd := by
      rw [sysOpen, hp]
      rfl
    have hnew : ∀ q, k.names q ≠ some file := fun q h => hf (Or.inl ⟨q, h⟩)
    rw [hopen]
    refine ⟨?_, ?_⟩
    · funext q
      show ((k.setName p (some file)).clear file).contents q = _
      by_cases hq : q = p
      · rw [hq, Function.update_self]
        exact contents_clear_self (Function.update_self ..)
      · have hname : (k.setName p (some file)).names q = k.names q := Function.update_of_ne hq _ _
        rw [Function.update_of_ne hq, contents_clear (by rw [hname]; exact hnew q),
          contents_setName, Function.update_of_ne hq]
    · intro q q' f h h'
      have hname : ∀ r f, Function.update k.names p (some file) r = some f →
          (r = p ∧ f = file) ∨ (r ≠ p ∧ k.names r = some f) := by
        intro r f hr
        by_cases hrp : r = p
        · rw [hrp, Function.update_self] at hr
          exact Or.inl ⟨hrp, (Option.some.inj hr).symm⟩
        · rw [Function.update_of_ne hrp] at hr
          exact Or.inr ⟨hrp, hr⟩
      rcases hname q f h with ⟨h1, h2⟩ | ⟨h1, h2⟩
      · rcases hname q' f h' with ⟨h3, h4⟩ | ⟨h3, h4⟩
        · rw [h1, h3]
        · exact absurd (h2 ▸ h4) (hnew q')
      · rcases hname q' f h' with ⟨h3, h4⟩ | ⟨h3, h4⟩
        · exact absurd (h4 ▸ h2) (hnew q)
        · exact hl q q' f h2 h4

/-- `rename` on a file system without links -/
theorem contents_sysRename {old new : Path} (hl : NoLinks k) (hm : k.mount old = k.mount new)
    (hne : k.contents old ≠ none → old ≠ new) :
    (sysRename k old new).2.contents = seqStep1 k.contents (.rename old new) ∧
      NoLinks (sysRename k old new).2 := by
  cases ho : k.names old with
  | none =>
    have hsame : (sysRename k old new).2 = k := by rw [sysRename, ho]
    rw [hsame, seqStep1, if_pos (contents_eq_none.mpr ho)]
    exact ⟨rfl, hl⟩
  | some f =>
    have hC : k.contents old = some (k.content f) := by rw [Kernel.contents, ho, Option.map_some]
    have hne := hne (by rw [hC]; exact Option.some_ne_none _)
    have hnew : k.names new ≠ some f := fun hn => hne (hl old new f ho hn)
    have hmove : (sysRename k old new).2 = (k.setName new (some f)).setName old none := by
      simp [sysRename, ho, hm, hnew]
    rw [hmove, seqStep1, hC, if_neg (Option.some_ne_none _)]
    refine ⟨by rw [contents_setName, contents_setName]; rfl, ?_⟩
    have hname : ∀ r g, Function.update (Function.update k.names new (some f)) old none r = some g →
        (r = new ∧ g = f) ∨ (r ≠ old ∧ k.names r = some g) := by
      intro r g hr
      by_cases hro : r = old
      · rw [hro, Function.update_self] at hr
        cases hr
      · rw [Function.update_of_ne hro] at hr
        by_cases hrn : r = new
        · rw [hrn, Function.update_self] at hr
          exact Or.inl ⟨hrn, (Option.some.inj hr).symm⟩
        · rw [Function.update_of_ne hrn] at hr
          exact Or.inr ⟨hro, hr⟩
    intro q q' g h h'
    rcases hname q g h with ⟨h1, h2⟩ | ⟨h1, h2⟩
    · rcases hname q' g h' with ⟨h3, h4⟩ | ⟨h3, h4⟩
      · rw [h1, h3]
      · exact absurd (hl q' old f (h2 ▸ h4) ho) h3
    · rcases hname q' g h' with ⟨h3, h4⟩ | ⟨h3, h4⟩
      · exact absurd (hl q old f (h4 ▸ h2) ho) h1
      · exact hl q q' g h2 h4

theorem contents_sysUnlink {p : Path} (hl : NoLinks k) :
    (sysUnlink k p).2.contents = Function.update k.contents p none ∧
      NoLinks (sysUnlink k p).2 := by
  refine ⟨?_, fun q q' f h h' => ?_⟩
  · funext q
    show Option.map (sysUnlink k p).2.content ((sysUnlink k p).2.names q) = _
    rw [sysUnlink_names, sysUnlink_content]
    by_cases hq : q = p
    · rw [hq, Function.update_self, Function.update_self]
      rfl
    · rw [Function.update_of_ne hq, Function.update_of_ne hq]
      rfl
  · have hname : ∀ r, (sysUnlink k p).2.names r = some f → k.names r = some f := by
      intro r hr
      rw [sysUnlink_names] at hr
      by_cases hrp : r = p
      · rw [hrp, Function.update_self] at hr
        cases hr
      · rwa [Function.update_of_ne hrp] at hr
    exact hl q q' f (hname q h) (hname q' h')

theorem contents_seqStep {c : Request} (hc : c.call.OnNames) (hl : NoLinks k)
    (hf : ¬ k.Exists c.answers.file)
    (hm : ∀ old new, c.call = .rename old new → k.mount old = k.mount new)
    (hne : ∀ old new, c.call = .rename old new → k.contents old ≠ none → old ≠ new) :
    (seqStep k c).contents = seqStep1 k.contents c.call ∧ NoLinks (seqStep k c) := by
  obtain ⟨call, result, answers⟩ := c
  cases call with
  | create p => exact contents_sysOpen hl hf
  | rename old new => exact contents_sysRename hl (hm old new rfl) (hne old new rfl)
  | unlink p => exact contents_sysUnlink hl
  | _ => exact hc.elim

/-! ## removing at once, and removing at the end -/

/-- one call, when its paths have not been removed -/
theorem seqStep1_without {C : Contents} {R : List Path} {c : XCall} (hc : c.OnNames)
    (hR : ∀ p ∈ c.paths, p ∉ R) (hne : ∀ old new, c = .rename old new → C old ≠ none → old ≠ new) :
    seqStep1 (without R C) c = without (R ++ removed1 C c) (inPlace1 C c) := by
  cases c with
  | create p =>
    have hp : p ∉ R := hR p (by simp [XCall.paths])
    funext q
    by_cases hq : q = p
    · simp [seqStep1, without, removed1, inPlace1, hq, hp]
    · simp [seqStep1, without, removed1, inPlace1, Function.update_of_ne hq]
  | rename old new =>
    have ho : old ∉ R := hR old (by simp [XCall.paths])
    have hn : new ∉ R := hR new (by simp [XCall.paths])
    have hCo : without R C old = C old := by simp [without, ho]
    simp only [seqStep1, removed1, inPlace1, hCo]
    by_cases hnone : C old = none
    · simp [hnone]
    · have hne := hne old new rfl hnone
      simp only [hnone, if_false]
      funext q
      by_cases hqo : q = old
      · simp [without, hqo]
      · by_cases hqn : q = new
        · simp [without, hqn, hn, hne.symm]
        · simp [without, Function.update_of_ne hqn, hqo]
  | unlink p =>
    have hp : p ∉ R := hR p (by simp [XCall.paths])
    simp only [seqStep1, removed1, inPlace1]
    funext q
    by_cases hq : q = p
    · by_cases hnone : C p = none <;> simp [without, hq, hnone]
    · by_cases hnone : C p = none <;> simp [without, hnone, hq]
  | _ => exact hc.elim

/-- **Program order and removals at the end agree**, when no call names a path that an earlier one
has removed and no file has two names. -/
theorem inPlace_eq_sequential (ss : List Request) (hc : ∀ c ∈ ss, c.call.OnNames) :
    ∀ {k : Kernel} {C : Contents} {R : List Path}, NoLinks k → SeqOk ss k →
      Untouched (ss.map Request.call) C R → Proper (ss.map Request.call) C →
      k.contents = without R C →
      (sequential ss k).contents
        = without (R ++ removed (ss.map Request.call) C) (inPlace (ss.map Request.call) C) := by
  induction ss with
  | nil =>
    intro k C R _ _ _ _ hk
    rw [List.map_nil, removed, List.append_nil]
    exact hk
  | cons c ss ih =>
    intro k C R hl hok hun hpr hk
    obtain ⟨hfile, hmount, hok⟩ := hok
    obtain ⟨hpaths, hun⟩ := hun
    obtain ⟨hne, hpr⟩ := hpr
    have hcc := hc c List.mem_cons_self
    have hne' : ∀ old new, c.call = .rename old new → k.contents old ≠ none → old ≠ new := by
      intro old new h ho
      refine hne old new h fun hC => ho ?_
      rw [hk, without, hC, ite_self]
    obtain ⟨hstep, hl'⟩ := contents_seqStep hcc hl hfile hmount hne'
    rw [hk, seqStep1_without hcc hpaths hne] at hstep
    have hih := ih (fun d hd => hc d (List.mem_cons_of_mem _ hd)) hl' hok hun hpr hstep
    rw [List.append_assoc] at hih
    exact hih

end

/-! ## the commit actions -/

section
variable {T : Type} [DecidableEq T] {n N : Nat}

def XAction.dead : XAction N → Option Path
  | .createCase2Commit args => some args.tempPathname
  | .renameCommit args => some args.oldpath
  | .unlinkCommit _ p => some p
  | _ => none

def deadPaths (l : List (XAction N × Int32)) : List Path := l.filterMap fun x => x.1.dead

structure Deferral (x : XAction N × Int32) : Prop where
  order : x.2 = 0 ∨ x.2 = 1
  kernelOnly : x.1.KernelOnly
  unlinks : ∃ p, x.1.dead = some p ∧ ∀ k, x.1.sys k = (sysUnlink k p).2

theorem effects_deferral {l : List (XAction N × Int32)} (h : ∀ x ∈ l, Deferral x) (k : Kernel) :
    (∀ p, (effects l k).names p = if p ∈ deadPaths l then none else k.names p) ∧
      (effects l k).content = k.content := by
  induction l generalizing k with
  | nil => exact ⟨fun p => by simp [deadPaths, effects], rfl⟩
  | cons x l ih =>
    obtain ⟨q, hdead, hsys⟩ := (h x List.mem_cons_self).unlinks
    obtain ⟨hn, hc⟩ := ih (fun y hy => h y (List.mem_cons_of_mem _ hy)) (x.1.sys k)
    have hcons : deadPaths (x :: l) = q :: deadPaths l := by simp [deadPaths, hdead]
    refine ⟨fun p => ?_, ?_⟩
    · show (effects l (x.1.sys k)).names p = _
      rw [hn, hcons, hsys, sysUnlink_names]
      by_cases hp : p = q
      · simp [hp]
      · simp [hp]
    · show (effects l (x.1.sys k)).content = _
      rw [hc, hsys, sysUnlink_content]

/-! ## one call -/

/-- what calls from `v` to `v'` leave to the commit, when `C` is read at the paths of `v` that are
not temporary -/
structure Defers (isTemp : Path → Prop) (cs : List Request) (C : Contents) (v v' : View N) : Prop
    where
  contents : ∀ p, ¬ isTemp p → v'.kernel.contents p = inPlace (cs.map Request.call) C p
  proper : Proper (cs.map Request.call) C
  commits : ∃ l, v'.commits = v.commits ++ l ∧ (∀ x ∈ l, Deferral x) ∧
    (∀ p, ¬ isTemp p → (p ∈ deadPaths l ↔ p ∈ removed (cs.map Request.call) C)) ∧
    ∀ t, v'.kernel.names t ≠ none → isTemp t →
      v.kernel.names t ≠ none ∨ t ∈ deadPaths l ∨
        ∃ c ∈ cs, (∃ old new, c.call = .rename old new) ∧ c.answers.temp = t

theorem Defers.nil {isTemp : Path → Prop} {C : Contents} {v : View N}
    (hC : ∀ p, ¬ isTemp p → v.kernel.contents p = C p) : Defers isTemp [] C v v :=
  ⟨hC, trivial, [], (List.append_nil _).symm, by simp, by simp [deadPaths, removed],
    fun t h _ => Or.inl h⟩

theorem Defers.cons {isTemp : Path → Prop} {c : Request} {cs : List Request} {C : Contents}
    {v v' v'' : View N} (h : Defers isTemp [c] C v v')
    (h' : Defers isTemp cs (inPlace1 C c.call) v' v'') : Defers isTemp (c :: cs) C v v'' := by
  obtain ⟨l, hl, hdef, hdead, htemp⟩ := h.commits
  obtain ⟨l', hl', hdef', hdead', htemp'⟩ := h'.commits
  have happ : deadPaths (l ++ l') = deadPaths l ++ deadPaths l' := List.filterMap_append
  refine ⟨h'.contents, ⟨h.proper.1, h'.proper⟩, l ++ l', ?_, fun x hx => ?_, fun p hp => ?_,
    fun t ht hti => ?_⟩
  · rw [hl', hl, List.append_assoc]
  · rcases List.mem_append.mp hx with hx | hx
    · exact hdef x hx
    · exact hdef' x hx
  · rw [happ, List.mem_append, hdead p hp, hdead' p hp]
    simp [removed]
  · rw [happ, List.mem_append]
    rcases htemp' t ht hti with h1 | h1 | ⟨d, hd, h2⟩
    · rcases htemp t h1 hti with h3 | h3 | ⟨d, hd, h4⟩
      · exact Or.inl h3
      · exact Or.inr (Or.inl (Or.inl h3))
      · exact Or.inr (Or.inr ⟨d, by simp_all, h4⟩)
    · exact Or.inr (Or.inl (Or.inr h1))
    · exact Or.inr (Or.inr ⟨d, List.mem_cons_of_mem _ hd, h2⟩)

theorem contents_new {k : Kernel} {file : FileId} {fd : Nat} {q : Path} (hf : ¬ k.Exists file)
    {k₁ : Kernel} (hc : k₁.content = k.content) (hq : k₁.names q = k.names q) :
    ((k₁.clear file).install file fd).contents q = k.contents q := by
  show (k₁.clear file).contents q = _
  rw [contents_clear (by rw [hq]; exact fun h => hf (Or.inl ⟨q, h⟩))]
  show Option.map k₁.content (k₁.names q) = _
  rw [hc, hq]
  rfl

theorem deferral_unlink {a : XAction N} {order : Int32} (p : Path) (ho : order = 0 ∨ order = 1)
    (hk : a.KernelOnly) (hd : a.dead = some p) (hs : ∀ k, a.sys k = (sysUnlink k p).2) :
    ∀ x ∈ [(a, order)], Deferral x := by
  intro x hx
  rw [List.mem_singleton.mp hx]
  exact ⟨ho, hk, p, hd, hs⟩

/-- **What one call leaves to the commit.** -/
theorem defers_step {isTemp : Path → Prop} {c : Request} {C : Contents} {v v' : View N}
    (h : PathStep v c.call v') (hv : v.temp = c.answers.temp) (ht : v.kernel.names v.temp = none)
    (hf : ¬ v.kernel.Exists v.file) (htemp : isTemp v.temp) (hp : ∀ p ∈ c.call.paths, ¬ isTemp p)
    (hC : ∀ p, ¬ isTemp p → v.kernel.contents p = C p) : Defers isTemp [c] C v v' := by
  obtain ⟨call, result, answers⟩ := c
  have hnone : ∀ p, ¬ isTemp p → (C p = none ↔ v.kernel.names p = none) := fun p h => by
    rw [← hC p h, contents_eq_none]
  have hne : ∀ p, ¬ isTemp p → p ≠ v.temp := fun p h he => h (he ▸ htemp)
  cases h with
  | @createNew p koa fd k' hpn ho =>
    have hpt : ¬ isTemp p := hp p (by simp [XCall.paths])
    obtain ⟨-, rfl⟩ := sysOpen_create hpn ho
    refine ⟨fun q hq => ?_, ⟨(fun _ _ h => by cases h), trivial⟩, [], (List.append_nil _).symm,
      by simp, by simp [deadPaths, removed, removed1], fun t h hti => Or.inl ?_⟩
    · show _ = Function.update C p (some []) q
      by_cases hqp : q = p
      · rw [hqp, Function.update_self]
        exact contents_clear_self (Function.update_self ..)
      · rw [Function.update_of_ne hqp, ← hC q hq]
        exact contents_new hf rfl (Function.update_of_ne hqp _ _)
    · have htp : t ≠ p := fun he => hpt (he ▸ hti)
      have hname : Function.update v.kernel.names p (some v.file) t = v.kernel.names t :=
        Function.update_of_ne htp _ _
      exact fun hn => h (hname.trans hn)
  | @createOver p koa fd k₁ k' hpn hr ho =>
    have hpt : ¬ isTemp p := hp p (by simp [XCall.paths])
    obtain ⟨g, hg, -, rfl⟩ := sysRename_ok hr ht
    obtain ⟨-, rfl⟩ := sysOpen_create (Function.update_self ..) ho
    have hname : ∀ q o, q ≠ p → q ≠ v.temp → Function.update (Function.update (Function.update
        v.kernel.names v.temp (some g)) p none) p o q = v.kernel.names q := by
      intro q o h1 h2
      rw [Function.update_of_ne h1, Function.update_of_ne h1, Function.update_of_ne h2]
    refine ⟨fun q hq => ?_, ⟨(fun _ _ h => by cases h), trivial⟩, _, rfl,
      deferral_unlink v.temp (Or.inl rfl) (fun _ _ h => by cases h) rfl fun _ => rfl,
      fun q hq => ?_, fun t h hti => ?_⟩
    · show _ = Function.update C p (some []) q
      by_cases hqp : q = p
      · rw [hqp, Function.update_self]
        exact contents_clear_self (Function.update_self ..)
      · rw [Function.update_of_ne hqp, ← hC q hq]
        exact contents_new hf rfl (hname q _ hqp (hne q hq))
    · simp [deadPaths, XAction.dead, removed, removed1, hne q hq]
    · by_cases htt : t = v.temp
      · exact Or.inr (Or.inl (by simp [deadPaths, XAction.dead, htt]))
      · have htp : t ≠ p := fun he => hpt (he ▸ hti)
        exact Or.inl fun hn => h ((hname t _ htp htt).trans hn)
  | @renameMissing old new ho =>
    have hot : ¬ isTemp old := hp old (by simp [XCall.paths])
    have hCo : C old = none := (hnone old hot).mpr ho
    refine ⟨fun q hq => ?_, ⟨(fun o w h hc => ?_), trivial⟩, [], (List.append_nil _).symm,
      by simp, ?_, fun t h _ => Or.inl h⟩
    · show _ = inPlace1 C (.rename old new) q
      rw [inPlace1, if_pos hCo]
      exact hC q hq
    · cases h
      exact absurd hCo hc
    · simp [deadPaths, removed, removed1, hCo]
  | @renameNew old new koa k' ho hn hl =>
    have hot : ¬ isTemp old := hp old (by simp [XCall.paths])
    have hnt : ¬ isTemp new := hp new (by simp [XCall.paths])
    have hCo : C old ≠ none := fun h => ho ((hnone old hot).mp h)
    obtain ⟨f, hfo, -, rfl⟩ := sysLink_ok hl
    refine ⟨fun q hq => ?_, ⟨(fun o w h hc => ?_), trivial⟩, _, rfl,
      deferral_unlink old (Or.inl rfl) (fun _ _ h => by cases h) rfl fun _ => rfl,
      fun q hq => ?_, fun t h hti => ?_⟩
    · show (v.kernel.setName new (some f)).contents q = inPlace1 C (.rename old new) q
      rw [contents_setName, inPlace1, if_neg hCo]
      by_cases hqn : q = new
      · rw [hqn, Function.update_self, Function.update_self, ← hC old hot, Kernel.contents, hfo]
      · rw [Function.update_of_ne hqn, Function.update_of_ne hqn, hC q hq]
    · cases h
      exact fun he => ho (he ▸ hn)
    · simp [deadPaths, XAction.dead, removed, removed1, hCo]
    · have htn : t ≠ new := fun he => hnt (he ▸ hti)
      have hname : Function.update v.kernel.names new (some f) t = v.kernel.names t :=
        Function.update_of_ne htn _ _
      exact Or.inl fun hn => h (hname.trans hn)
  | @renameOver old new koa koa' k₁ k' ho hn hr hl =>
    have hot : ¬ isTemp old := hp old (by simp [XCall.paths])
    have hnt : ¬ isTemp new := hp new (by simp [XCall.paths])
    have hCo : C old ≠ none := fun h => ho ((hnone old hot).mp h)
    obtain ⟨g, hg, -, rfl⟩ := sysRename_ok hr ht
    obtain ⟨f, hfo, -, rfl⟩ := sysLink_ok hl
    have hon : old ≠ new := by
      rintro rfl
      have hgone : Function.update (Function.update v.kernel.names v.temp (some g)) old none old
          = none := Function.update_self ..
      exact absurd (hfo.symm.trans hgone) (Option.some_ne_none f)
    have hfo' : v.kernel.names old = some f := by
      rw [← hfo]
      show _ = Function.update (Function.update v.kernel.names v.temp (some g)) new none old
      rw [Function.update_of_ne hon, Function.update_of_ne (hne old hot)]
    refine ⟨fun q hq => ?_, ⟨(fun o w h hc => ?_), trivial⟩, _, rfl,
      deferral_unlink old (Or.inl rfl) (fun _ _ h => by cases h) rfl fun _ => rfl,
      fun q hq => ?_, fun t h hti => ?_⟩
    · show (((v.kernel.setName v.temp (some g)).setName new none).setName new (some f)).contents q
        = inPlace1 C (.rename old new) q
      rw [contents_setName, contents_setName, contents_setName, inPlace1, if_neg hCo]
      by_cases hqn : q = new
      · rw [hqn, Function.update_self, Function.update_self, ← hC old hot, Kernel.contents, hfo']
        rfl
      · rw [Function.update_of_ne hqn, Function.update_of_ne hqn, Function.update_of_ne (hne q hq),
          Function.update_of_ne hqn, hC q hq]
    · cases h
      exact hon
    · simp [deadPaths, XAction.dead, removed, removed1, hCo]
    · by_cases htt : t = v.temp
      · exact Or.inr (Or.inr ⟨_, List.mem_singleton_self _, ⟨old, new, rfl⟩, hv.symm.trans htt.symm⟩)
      · have htn : t ≠ new := fun he => hnt (he ▸ hti)
        have hname : Function.update (Function.update (Function.update v.kernel.names v.temp
            (some g)) new none) new (some f) t = v.kernel.names t := by
          rw [Function.update_of_ne htn, Function.update_of_ne htn, Function.update_of_ne htt]
        exact Or.inl fun hn => h (hname.trans hn)
  | @unlinkMissing p hpn =>
    have hCp : C p = none := (hnone p (hp p (by simp [XCall.paths]))).mpr hpn
    refine ⟨hC, ⟨(fun _ _ h => by cases h), trivial⟩, [], (List.append_nil _).symm, by simp, ?_,
      fun t h _ => Or.inl h⟩
    simp [deadPaths, removed, removed1, hCp]
  | @unlink p koa hpn =>
    have hCp : C p ≠ none := fun h => hpn ((hnone p (hp p (by simp [XCall.paths]))).mp h)
    refine ⟨hC, ⟨(fun _ _ h => by cases h), trivial⟩, _, rfl,
      deferral_unlink p (Or.inr rfl) (fun _ _ h => by cases h) rfl fun _ => rfl, ?_,
      fun t h _ => Or.inl h⟩
    simp [deadPaths, XAction.dead, removed, removed1, hCp]

/-! ## sequences of calls -/

/-- **What a sequence of calls leaves to the commit.** -/
theorem xRun_defers {isTemp : Path → Prop} {cs : List Request} (hc : ∀ c ∈ cs, c.call.OnNames)
    (htemp : ∀ c ∈ cs, isTemp c.answers.temp ∧ ∀ p ∈ c.call.paths, ¬ isTemp p) :
    ∀ {m m' : XMach T n N} {C : Contents}, xRun handleOk cs m = some (none, m') →
      Admissible handleOk cs m → m.world.xactstate = .retryable →
      (∀ p, ¬ isTemp p → m.world.kernel.contents p = C p) →
      Defers isTemp cs C (view m) (view m') := by
  induction cs with
  | nil =>
    intro m m' C h _ _ hC
    cases h
    exact Defers.nil hC
  | cons c cs ih =>
    intro m m' C h hadm hx hC
    obtain ⟨hans, hnext⟩ := hadm
    obtain ⟨ht, hp⟩ := htemp c List.mem_cons_self
    unfold xRun at h
    split at h
    · cases h
    · rename_i r m1 h1
      have hstep : PathStep (view (withAnswers m c.answers)) c.call (view m1) :=
        run_view (m := withAnswers m c.answers) (path_view (hc c List.mem_cons_self) c.result _ hx) h1
      have hcall : Defers isTemp [c] C (view (withAnswers m c.answers)) (view m1) :=
        defers_step hstep rfl hans.temp hans.file ht hp hC
      have hm1 : Defers isTemp [c] C (view m) (view m1) :=
        ⟨hcall.contents, hcall.proper, hcall.commits⟩
      refine hm1.cons (ih (fun d hd => hc d (List.mem_cons_of_mem _ hd))
        (fun d hd => htemp d (List.mem_cons_of_mem _ hd)) h (hnext r m1 h1) ?_ hm1.contents)
      exact hstep.xactstate.trans hx
    · cases h
    · cases h

theorem mem_deadPaths_split {l : List (XAction N × Int32)} (h : ∀ x ∈ l, x.2 = 0 ∨ x.2 = 1)
    (p : Path) :
    p ∈ deadPaths ((l.filter fun x => x.2 = 0) ++ l.filter fun x => x.2 = 1) ↔
      p ∈ deadPaths l := by
  simp only [deadPaths, List.mem_filterMap, List.mem_append, List.mem_filter, decide_eq_true_eq]
  constructor
  · rintro ⟨x, (⟨hx, -⟩ | ⟨hx, -⟩), hd⟩
    · exact ⟨x, hx, hd⟩
    · exact ⟨x, hx, hd⟩
  · rintro ⟨x, hx, hd⟩
    rcases h x hx with h0 | h1
    · exact ⟨x, Or.inl ⟨hx, h0⟩, hd⟩
    · exact ⟨x, Or.inr ⟨hx, h1⟩, hd⟩

/-- **Commit removes last.**  Whatever calls of `x_create`, `x_rename` and `x_unlink` a retryable
transaction makes before it commits, with `isTemp` a property of the temporary names only:

* the paths show what the calls make of them in program order without removals, but for the old
  names of `x_rename` and the names of `x_unlink`, which are gone;
* a temporary name that is left is one of an `x_rename`;
* that is what the plain system calls do, when no file has two names and no call names a path that
  an earlier one has removed. -/
theorem commit_removes_last (isTemp : Path → Prop) (m : XMach T n N) (cs : List Request)
    (hc : ∀ c ∈ cs, c.call.OnNames)
    (htemp : ∀ c ∈ cs, isTemp c.answers.temp ∧ ∀ p ∈ c.call.paths, ¬ isTemp p)
    (hadm : Admissible handleOk cs (xBegin m)) (m' : XMach T n N)
    (hrun : xRun handleOk cs (xBegin m) = some (none, m')) :
    ∃ fuel₀ o, (∀ fuel ≥ fuel₀, txGenericCommitAction exec fuel (xCommit m') = some o) ∧
      (∀ p, ¬ isTemp p → o.mach.world.kernel.contents p
        = without (removed (cs.map Request.call) m.world.kernel.contents)
            (inPlace (cs.map Request.call) m.world.kernel.contents) p) ∧
      (∀ t, isTemp t → m.world.kernel.names t = none → o.mach.world.kernel.names t ≠ none →
        ∃ c ∈ cs, (∃ old new, c.call = .rename old new) ∧ c.answers.temp = t) ∧
      (NoLinks m.world.kernel →
        Untouched (cs.map Request.call) m.world.kernel.contents [] →
        ∀ ss : List Request, ss.map Request.call = cs.map Request.call →
          SeqOk ss m.world.kernel → ∀ p, ¬ isTemp p →
            o.mach.world.kernel.contents p = (sequential ss m.world.kernel).contents p) := by
  have hdef := xRun_defers (C := m.world.kernel.contents) hc htemp hrun hadm rfl fun p _ => rfl
  obtain ⟨l, hl, hall, hdead, hleft⟩ := hdef.commits
  obtain ⟨hok0, hact⟩ := xBegin_lists m
  have hempty : (view (xBegin m)).commits = [] := (Prod.mk.inj hact).1
  rw [hempty, List.nil_append] at hl
  have hl' : others (xCommit m').txd.commitActionList.entries = l := hl
  obtain ⟨fuel₀, o, hfuel, hker⟩ := commit_kernel (xCommit m') rfl
    (xRun_listsOk handles_handleOk hrun hok0).1
    (by rw [hl']; exact fun x hx => ⟨(hall x hx).order, (hall x hx).kernelOnly⟩)
  rw [hl'] at hker
  have hsplit := mem_deadPaths_split fun x hx => (hall x hx).order
  obtain ⟨hnames, hcontent⟩ := effects_deferral (l := (l.filter fun x => x.2 = 0) ++
    l.filter fun x => x.2 = 1) (fun x hx => hall x (by
      rcases List.mem_append.mp hx with hx | hx
      · exact (List.mem_filter.mp hx).1
      · exact (List.mem_filter.mp hx).1)) m'.world.kernel
  -- the kernel of the outcome, path by path
  have hname : ∀ p, o.mach.world.kernel.names p
      = if p ∈ deadPaths l then none else m'.world.kernel.names p := by
    intro p
    rw [hker]
    show (effects _ m'.world.kernel).names p = _
    rw [hnames p]
    simp only [hsplit p]
  have hfinal : ∀ p, ¬ isTemp p → o.mach.world.kernel.contents p
      = without (removed (cs.map Request.call) m.world.kernel.contents)
          (inPlace (cs.map Request.call) m.world.kernel.contents) p := by
    intro p hp
    have hcont : o.mach.world.kernel.content = m'.world.kernel.content := by
      rw [hker]
      exact hcontent
    rw [Kernel.contents, hname p, hcont, without]
    by_cases hd : p ∈ deadPaths l
    · rw [if_pos hd, if_pos ((hdead p hp).mp hd), Option.map_none]
    · rw [if_neg hd, if_neg fun h => hd ((hdead p hp).mpr h)]
      exact hdef.contents p hp
  refine ⟨fuel₀, o, hfuel, hfinal, fun t hti h0 ht => ?_, fun hlinks hun ss hss hok p hp => ?_⟩
  · rw [hname t] at ht
    by_cases hd : t ∈ deadPaths l
    · rw [if_pos hd] at ht
      exact absurd rfl ht
    · rw [if_neg hd] at ht
      rcases hleft t ht hti with h1 | h1 | h1
      · exact absurd h0 h1
      · exact absurd h1 hd
      · exact h1
  · have hcs : ∀ c ∈ ss, c.call.OnNames := by
      intro c hcm
      have hmem : c.call ∈ cs.map Request.call := hss ▸ List.mem_map_of_mem hcm
      obtain ⟨d, hd, hcall⟩ := List.mem_map.mp hmem
      rw [← hcall]
      exact hc d hd
    have hseq := inPlace_eq_sequential ss hcs (C := m.world.kernel.contents) (R := []) hlinks hok
      (by rw [hss]; exact hun) (by rw [hss]; exact hdef.proper) (by funext q; simp [without])
    rw [hfinal p hp, hseq, hss, List.nil_append]

end

/-! ## a run, and one on which the order shows -/

theorem noLinks_smallKernel : NoLinks smallKernel := by
  have hname : ∀ p f, smallKernel.names p = some f → p = if f.ino = 1 then "a" else "b" := by
    intro p f h
    simp only [smallKernel] at h
    split at h
    · cases h
      assumption
    · split at h
      · cases h
        assumption
      · cases h
  intro p q f hp hq
  rw [hname p f hp, hname q f hq]

theorem sysRename_exists {k : Kernel} {old new : Path} {f : FileId}
    (h : (sysRename k old new).2.Exists f) : k.Exists f := by
  unfold sysRename at h
  split at h
  · exact h
  · rename_i g hg
    split at h
    · exact h
    · split at h
      · exact h
      · have hnew := h.of_setName fun _ hc => nomatch hc
        by_cases hgf : g = f
        · exact Or.inl ⟨old, hgf ▸ hg⟩
        · exact hnew.of_setName fun _ hc => Option.some.inj hc ▸ hgf

/-- `a` is renamed to `b`, which has a file, then to `c`, and unlinked there -/
def callsInTurn : List Request :=
  [⟨.rename "a" "b", none, smallAnswers⟩, ⟨.rename "b" "c", none, secondAnswers⟩,
    ⟨.unlink "c", none, thirdAnswers⟩]

theorem seqOk_callsInTurn : SeqOk callsInTurn smallKernel := by
  refine ⟨smallAnswers_ok.file, fun _ _ _ => rfl, fun h => ?_, fun _ _ _ => ?_, fun h => ?_,
    (fun _ _ h => nomatch h), trivial⟩
  · exact secondAnswers_ok.file (sysRename_exists h)
  · show (sysRename smallKernel "a" "b").2.mount _ = (sysRename smallKernel "a" "b").2.mount _
    rw [sysRename_mount]
    rfl
  · exact thirdAnswers_ok.file (sysRename_exists (sysRename_exists h))

theorem commit_removes_last_callsInTurn :
    ∃ m' o fuel₀, xRun handleOk callsInTurn (xBegin (smallMach smallKernel)) = some (none, m') ∧
      (∀ fuel ≥ fuel₀, txGenericCommitAction exec fuel (xCommit m') = some o) ∧
      ∀ p, p ∉ callsInTurn.map (fun c => c.answers.temp) →
        o.mach.world.kernel.contents p = (sequential callsInTurn smallKernel).contents p := by
  have hrun : ((xRun handleOk callsInTurn (xBegin (smallMach smallKernel))).map Prod.fst)
      = some none := by decide +kernel
  obtain ⟨⟨out, m'⟩, h, hout⟩ := Option.map_eq_some_iff.mp hrun
  obtain rfl : out = none := hout
  have hc : ∀ c ∈ callsInTurn, c.call.OnNames := by
    simp [callsInTurn, XCall.OnNames]
  have hok : ∀ c ∈ callsInTurn, c.answers.Ok smallKernel := by
    simp only [callsInTurn, List.forall_mem_cons, List.not_mem_nil, false_implies, implies_true,
      and_true]
    exact ⟨smallAnswers_ok, secondAnswers_ok, thirdAnswers_ok⟩
  obtain ⟨fuel₀, o, hfuel, -, -, hseq⟩ := commit_removes_last
    (fun p => p ∈ callsInTurn.map fun c => c.answers.temp) (smallMach smallKernel) callsInTurn hc
    (by decide) (admissible_of_pairwise hc (by decide) rfl hok) m' h
  refine ⟨m', o, fuel₀, h, hfuel, hseq noLinks_smallKernel ?_ callsInTurn rfl seqOk_callsInTurn⟩
  refine ⟨by decide, ?_, ?_, trivial⟩
  · decide +kernel
  · decide +kernel

/-- `a` is unlinked and created again -/
def unlinkCreate : List Request :=
  [⟨.unlink "a", none, smallAnswers⟩, ⟨.create "a", none, smallAnswers⟩]

/-- the unlink overtakes the creation: the system calls leave an empty file at `a`, and the
committed transaction leaves none -/
theorem unlink_overtakes_create :
    Admissible handleOk unlinkCreate (xBegin (smallMach smallKernel)) ∧
      SeqOk unlinkCreate smallKernel ∧
      (sequential unlinkCreate smallKernel).contents "a" = some [] ∧
      ∃ m' o, xRun handleOk unlinkCreate (xBegin (smallMach smallKernel)) = some (none, m') ∧
        txGenericCommitAction exec 100 (xCommit m') = some o ∧
        o.mach.world.kernel.contents "a" = none := by
  refine ⟨⟨smallAnswers_ok, fun r m1 h1 => ⟨?_, fun _ _ _ => trivial⟩⟩, ⟨smallAnswers_ok.file,
    (fun _ _ h => by cases h), ?_, (fun _ _ h => by cases h), trivial⟩, by decide +kernel, ?_⟩
  · have hstep : PathStep (view (withAnswers (xBegin (smallMach smallKernel)) smallAnswers))
        (.unlink "a") (view m1) :=
      run_view (m := withAnswers (xBegin (smallMach smallKernel)) smallAnswers)
        (path_view (c := .unlink "a") trivial none _ rfl) h1
    have hk : m1.world.kernel = smallKernel := by
      show (view m1).kernel = _
      generalize view m1 = v at hstep
      cases hstep <;> rfl
    rw [hk]
    exact smallAnswers_ok
  · rintro (⟨p, hp⟩ | ⟨fd, o, ho, -⟩)
    · refine smallAnswers_ok.file (Or.inl ⟨p, ?_⟩)
      have hname : (sysUnlink smallKernel "a").2.names p = some smallAnswers.file := hp
      rw [sysUnlink_names] at hname
      by_cases hpa : p = "a"
      · rw [hpa, Function.update_self] at hname
        cases hname
      · rwa [Function.update_of_ne hpa] at hname
    · cases ho
  · have hrun : ((xRun handleOk unlinkCreate (xBegin (smallMach smallKernel))).bind fun r =>
        (txGenericCommitAction exec 100 (xCommit r.2)).map fun o =>
          (r.1, o.mach.world.kernel.contents "a")) = some (none, none) := by decide +kernel
    obtain ⟨⟨out, m'⟩, h1, h2⟩ := Option.bind_eq_some_iff.mp hrun
    obtain ⟨o, h3, h4⟩ := Option.map_eq_some_iff.mp h2
    obtain ⟨rfl, h5⟩ := Prod.mk.inj h4
    exact ⟨m', o, h1, h3, h5⟩

end XCalls
