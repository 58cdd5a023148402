import XCalls.XCall.PathSteps

/-!
# Abort restores the name space

* `undo_step`      the undo action of a call is the inverse of what the call did to the names;
* `Undoable`       the undo actions registered since a state lead back to it: kept by every call
                   (`Undoable.step`) and by every sequence of calls (`xRun_undoable`);
* `abort_restores_names`.
-/

set_option linter.unusedSectionVars false

namespace XCalls
open Prog
variable {T : Type} [DecidableEq T] {n N : Nat}

/-! ## one call -/

/-- the undo actions of a list lead from the names of `k'` back to those of `k` -/
def UndoneBy (l : List (XAction N × Int32)) (k k' : Kernel) : Prop :=
  ∀ c : Kernel, c.names = k'.names → c.mount = k'.mount →
    (effects l.reverse c).names = k.names ∧ (effects l.reverse c).mount = k.mount ∧
      (effects l.reverse c).content = c.content

/-- the names after a file was put at `p` and moved from there to an unused name `t` -/
theorem restore_names {N₀ : Path → Option FileId} {p t : Path} {g : FileId} (o : Option FileId)
    (hp : N₀ p = some g) (ht : N₀ t = none) :
    Function.update (Function.update (Function.update (Function.update (Function.update
      (Function.update N₀ t (some g)) p none) p o) p none) p (some g)) t none = N₀ := by
  have hne : p ≠ t := fun h => by rw [h, ht] at hp; cases hp
  funext q
  by_cases hq : q = p
  · rw [hq, Function.update_of_ne hne, Function.update_self, hp]
  · by_cases hqt : q = t
    · rw [hqt, Function.update_self, ht]
    · simp only [Function.update_of_ne hq, Function.update_of_ne hqt]

theorem sysRename_back {c : Kernel} {N₀ : Path → Option FileId} {p t : Path} {g : FileId}
    {o : Option FileId} (hp : N₀ p = some g) (ht : N₀ t = none) (hm : c.mount t = c.mount p)
    (hc : c.names = Function.update (Function.update (Function.update N₀ t (some g)) p none) p o) :
    (sysRename (sysUnlink c p).2 t p).2.names = N₀ := by
  have hne : t ≠ p := fun h => by rw [← h, ht] at hp; cases hp
  have h1 : (sysUnlink c p).2.names t = some g := by
    rw [sysUnlink_names, hc]
    simp only [Function.update_of_ne hne, Function.update_self]
  have h2 : (sysUnlink c p).2.names p = none := by rw [sysUnlink_names, Function.update_self]
  rw [sysRename_eq h1 (by rw [sysUnlink_mount, hm]) h2]
  show Function.update (Function.update (sysUnlink c p).2.names p (some g)) t none = N₀
  rw [sysUnlink_names, hc]
  exact restore_names o hp ht

theorem update_none {N₀ : Path → Option FileId} {p : Path} (o : Option FileId)
    (hp : N₀ p = none) : Function.update (Function.update N₀ p o) p none = N₀ := by
  rw [Function.update_idem, ← hp, Function.update_eq_self]

theorem UndoneBy.nil (k : Kernel) : UndoneBy ([] : List (XAction N × Int32)) k k :=
  fun _ hn hm => ⟨hn, hm, rfl⟩

theorem sysOpen_create {k k' : Kernel} {p : Path} {file : FileId} {fd fd' : Nat}
    (hp : k.names p = none) (h : sysOpen k p creationFlags file fd = (.ok fd', k')) :
    fd' = fd ∧ k' = ((k.setName p (some file)).clear file).install file fd := by
  rw [sysOpen, hp] at h
  cases h
  exact ⟨rfl, rfl⟩

theorem undo_step {v v' : View N} {c : XCall} (h : PathStep v c v')
    (ht : v.kernel.names v.temp = none) :
    ∃ l, v'.undos = v.undos ++ l ∧ (∀ x ∈ l, x.2 = 0 ∧ x.1.KernelOnly) ∧
      UndoneBy l v.kernel v'.kernel := by
  have hone : ∀ {a : XAction N}, a.KernelOnly → ∀ x ∈ [(a, regularActionOrder)],
      x.2 = 0 ∧ x.1.KernelOnly := by
    intro a ha x hx
    rw [List.mem_singleton.mp hx]
    exact ⟨rfl, ha⟩
  cases h with
  | @createNew p koa fd k' hp ho =>
    refine ⟨_, rfl, hone fun _ _ h => (by cases h), fun c hn hm => ?_⟩
    obtain ⟨-, rfl⟩ := sysOpen_create hp ho
    simp only [sysClose_names, sysClose_mount, sysClose_content, sysUnlink_names, sysUnlink_mount,
      sysUnlink_content, effects, List.reverse_singleton, List.foldl, XAction.sys, hn, hm]
    exact ⟨update_none _ hp, rfl, trivial⟩
  | @createOver p koa fd k₁ k' hp hr ho =>
    refine ⟨_, rfl, hone fun _ _ h => (by cases h), fun c hn hm => ?_⟩
    obtain ⟨g, hg, hmount, rfl⟩ := sysRename_ok hr ht
    obtain ⟨-, rfl⟩ := sysOpen_create (Function.update_self ..) ho
    have hback := sysRename_back (c := c) hg ht (by rw [hm]; exact hmount.symm) hn
    simp only [effects, List.reverse_singleton, List.foldl, XAction.sys, sysClose_names,
      sysClose_mount, sysClose_content, sysRename_mount, sysRename_content, sysUnlink_mount,
      sysUnlink_content, hback, hm]
    exact ⟨trivial, rfl, trivial⟩
  | renameMissing ho => exact ⟨[], (List.append_nil _).symm, by simp, UndoneBy.nil _⟩
  | @renameNew old new koa k' ho hn hl =>
    refine ⟨_, rfl, hone fun _ _ h => (by cases h), fun c hcn hm => ?_⟩
    obtain ⟨f, hf, -, rfl⟩ := sysLink_ok hl
    simp only [effects, List.reverse_singleton, List.foldl, XAction.sys, sysUnlink_names,
      sysUnlink_mount, sysUnlink_content, hcn, hm]
    exact ⟨update_none _ hn, rfl, trivial⟩
  | @renameOver old new koa koa' k₁ k' ho hn hr hl =>
    refine ⟨_, rfl, hone fun _ _ h => (by cases h), fun c hcn hm => ?_⟩
    obtain ⟨g, hg, hmount, rfl⟩ := sysRename_ok hr ht
    obtain ⟨f, hf, -, rfl⟩ := sysLink_ok hl
    have hback := sysRename_back (c := c) hg ht (by rw [hm]; exact hmount.symm) hcn
    simp only [effects, List.reverse_singleton, List.foldl, XAction.sys, sysRename_mount,
      sysRename_content, sysUnlink_mount, sysUnlink_content, hback, hm]
    exact ⟨trivial, rfl, trivial⟩
  | unlinkMissing hp => exact ⟨[], (List.append_nil _).symm, by simp, UndoneBy.nil _⟩
  | unlink hp => exact ⟨[], (List.append_nil _).symm, by simp, UndoneBy.nil _⟩

/-- a file at `q` is still somewhere after it was moved from `p` to an unused name -/
theorem moved_name {N₀ : Path → Option FileId} {p t q : Path} {f g : FileId} {o : Option FileId}
    (hp : N₀ p = some g) (ht : N₀ t = none) (hq : N₀ q = some f) :
    ∃ q', Function.update (Function.update (Function.update N₀ t (some g)) p none) p o q'
      = some f := by
  have hne : t ≠ p := fun h => by rw [← h, ht] at hp; cases hp
  by_cases hqp : q = p
  · refine ⟨t, ?_⟩
    rw [Function.update_of_ne hne, Function.update_of_ne hne, Function.update_self, ← hp, ← hqp, hq]
  · have hqt : q ≠ t := fun h => by rw [h, ht] at hq; cases hq
    refine ⟨q, ?_⟩
    rw [Function.update_of_ne hqp, Function.update_of_ne hqp, Function.update_of_ne hqt, hq]

/-- a call keeps the files that exist, and their contents -/
theorem exists_step {v v' : View N} {c : XCall} (h : PathStep v c v')
    (ht : v.kernel.names v.temp = none) (hfile : ¬ v.kernel.Exists v.file)
    (hfd : v.kernel.fds v.fd = none) {f : FileId} (hf : v.kernel.Exists f) :
    v'.kernel.Exists f ∧ v'.kernel.content f = v.kernel.content f := by
  have hne : f ≠ v.file := fun h => hfile (h ▸ hf)
  have hopen : ∀ (k : Kernel), k.fds = v.kernel.fds → k.files = v.kernel.files →
      ∀ fd o, v.kernel.openFile fd = some o → (k.install v.file v.fd).openFile fd = some o := by
    intro k h1 h2 fd o ho
    have hfdne : fd ≠ v.fd := by
      rintro rfl
      rw [Kernel.openFile, hfd] at ho
      cases ho
    rw [Kernel.openFile_install hfdne, Kernel.openFile, h1, h2]
    exact ho
  cases h with
  | createNew hp ho =>
    obtain ⟨-, rfl⟩ := sysOpen_create hp ho
    refine ⟨hf.mono (fun q hq => ⟨q, ?_⟩) (hopen _ rfl rfl), Function.update_of_ne hne _ _⟩
    have hqp : q ≠ _ := fun h => by rw [h, hp] at hq; cases hq
    exact (Function.update_of_ne hqp _ _).trans hq
  | createOver hp hr ho =>
    obtain ⟨g, hg, -, rfl⟩ := sysRename_ok hr ht
    obtain ⟨-, rfl⟩ := sysOpen_create (Function.update_self ..) ho
    refine ⟨hf.mono (fun q hq => moved_name hg ht hq) (hopen _ rfl rfl),
      Function.update_of_ne hne _ _⟩
  | renameMissing ho => exact ⟨hf, rfl⟩
  | renameNew ho hn hl =>
    obtain ⟨g, -, -, rfl⟩ := sysLink_ok hl
    refine ⟨hf.mono (fun q hq => ⟨q, ?_⟩) fun fd o h => h, rfl⟩
    have hqn : q ≠ _ := fun h => by rw [h, hn] at hq; cases hq
    exact (Function.update_of_ne hqn _ _).trans hq
  | renameOver ho hn hr hl =>
    obtain ⟨g, hg, -, rfl⟩ := sysRename_ok hr ht
    obtain ⟨f', -, -, rfl⟩ := sysLink_ok hl
    exact ⟨hf.mono (fun q hq => moved_name hg ht hq) fun fd o h => h, rfl⟩
  | unlinkMissing hp => exact ⟨hf, rfl⟩
  | unlink hp => exact ⟨hf, rfl⟩

/-! ## sequences of calls -/

/-- the undo actions registered on the way from `v` to `v'` lead back -/
structure Undoable (v v' : View N) : Prop where
  undos : ∃ l, v'.undos = v.undos ++ l ∧ (∀ x ∈ l, x.2 = 0 ∧ x.1.KernelOnly) ∧
    UndoneBy l v.kernel v'.kernel
  keeps : ∀ f, v.kernel.Exists f →
    v'.kernel.Exists f ∧ v'.kernel.content f = v.kernel.content f

theorem Undoable.refl (v : View N) : Undoable v v :=
  ⟨⟨[], (List.append_nil _).symm, by simp, UndoneBy.nil _⟩, fun _ hf => ⟨hf, rfl⟩⟩

theorem UndoneBy.append {l l' : List (XAction N × Int32)} {k k' k'' : Kernel}
    (h : UndoneBy l k k') (h' : UndoneBy l' k' k'') : UndoneBy (l ++ l') k k'' := by
  intro c hn hm
  obtain ⟨hn1, hm1, hc1⟩ := h' c hn hm
  obtain ⟨hn2, hm2, hc2⟩ := h _ hn1 hm1
  rw [List.reverse_append, effects_append]
  exact ⟨hn2, hm2, hc2.trans hc1⟩

theorem Undoable.trans {v v' v'' : View N} (h : Undoable v v') (h' : Undoable v' v'') :
    Undoable v v'' := by
  obtain ⟨l, hl, hreg, hun⟩ := h.undos
  obtain ⟨l', hl', hreg', hun'⟩ := h'.undos
  refine ⟨⟨l ++ l', by rw [hl', hl, List.append_assoc], fun x hx => ?_, hun.append hun'⟩,
    fun f hf => ?_⟩
  · rcases List.mem_append.mp hx with hx | hx
    · exact hreg x hx
    · exact hreg' x hx
  · obtain ⟨h1, h2⟩ := h.keeps f hf
    obtain ⟨h3, h4⟩ := h'.keeps f h1
    exact ⟨h3, h4.trans h2⟩

theorem PathStep.xactstate {v v' : View N} {c : XCall} (h : PathStep v c v') :
    v'.xactstate = v.xactstate := by
  cases h <;> rfl

/-- **Every sequence of calls can be undone.** -/
theorem xRun_undoable {cs : List Request} (hc : ∀ c ∈ cs, c.call.OnNames) :
    ∀ {m m' : XMach T n N} {out : Option AbortReason}, xRun handleOk cs m = some (out, m') →
      Admissible handleOk cs m → m.world.xactstate = .retryable →
      Undoable (view m) (view m') := by
  induction cs with
  | nil =>
    intro m m' out h _ _
    cases h
    exact Undoable.refl _
  | cons c cs ih =>
    intro m m' out h hadm hx
    obtain ⟨hans, hnext⟩ := hadm
    have hpost : ∀ {r : Except Stop Int} {m1 : XMach T n N},
        run handleOk (c.call.prog c.result) (withAnswers m c.answers) = some (r, m1) →
        PathPost (view (withAnswers m c.answers)) c.call r (view m1) := fun h1 =>
      run_view (path_view (hc c List.mem_cons_self) c.result _ hx) h1
    unfold xRun at h
    split at h
    · cases h
    · rename_i r m1 h1
      have hstep : PathStep (view (withAnswers m c.answers)) c.call (view m1) := hpost h1
      -- the answers are no part of what is undone
      have hcall : Undoable (view (withAnswers m c.answers)) (view m1) :=
        ⟨undo_step hstep hans.temp, fun f hf => exists_step hstep hans.temp hans.file hans.fd hf⟩
      have hm1 : Undoable (view m) (view m1) := ⟨hcall.undos, hcall.keeps⟩
      refine hm1.trans (ih (fun d hd => hc d (List.mem_cons_of_mem _ hd)) h (hnext r m1 h1) ?_)
      exact hstep.xactstate.trans hx
    · rename_i reason m1 h1
      cases h
      have hsame : view m' = view (withAnswers m c.answers) := hpost h1
      rw [hsame]
      exact ⟨(Undoable.refl (view m)).undos, (Undoable.refl (view m)).keeps⟩
    · cases h

/-- **Abort restores the name space.**  Whatever calls of `x_create`, `x_rename` and `x_unlink` a
retryable transaction makes, until it is aborted for any reason: the generic undo action returns,
all names are links to the files they were links to, and all files that existed have their
contents. -/
theorem abort_restores_names (m : XMach T n N) (cs : List Request)
    (hc : ∀ c ∈ cs, c.call.OnNames) (hadm : Admissible handleOk cs (xBegin m))
    (out : Option AbortReason) (m' : XMach T n N)
    (hrun : xRun handleOk cs (xBegin m) = some (out, m')) (reason : AbortReason) :
    ∃ fuel₀ o, (∀ fuel ≥ fuel₀, txGenericUndoAction exec fuel (xAbort m' reason) = some o) ∧
      o.mach.world.kernel.names = m.world.kernel.names ∧
      ∀ f, m.world.kernel.Exists f →
        o.mach.world.kernel.content f = m.world.kernel.content f := by
  have hund := xRun_undoable hc hrun hadm rfl
  obtain ⟨l, hl, hreg, hback⟩ := hund.undos
  obtain ⟨fuel₀, o, hfuel, hk⟩ := abort_kernel handles_handleOk hrun hl hreg reason
  obtain ⟨hn, -, hcont⟩ := hback m'.world.kernel rfl rfl
  refine ⟨fuel₀, o, hfuel, ?_, fun f hf => ?_⟩
  · rw [hk, hn]
    rfl
  · rw [hk, hcont]
    exact (hund.keeps f hf).2

/-! ## answers that are used once -/

/-- the paths that a call names -/
def XCall.paths : XCall → List Path
  | .create p => [p]
  | .rename old new => [old, new]
  | .unlink p => [p]
  | .open p _ => [p]
  | _ => []

theorem Kernel.Exists.of_setName {k : Kernel} {p : Path} {o : Option FileId} {f : FileId}
    (h : (k.setName p o).Exists f) (ho : ∀ g, o = some g → g ≠ f) : k.Exists f := by
  rcases h with ⟨q, hq⟩ | h
  · have hq : Function.update k.names p o q = some f := hq
    by_cases hqp : q = p
    · rw [hqp, Function.update_self] at hq
      exact absurd rfl (ho f hq)
    · rw [Function.update_of_ne hqp] at hq
      exact Or.inl ⟨q, hq⟩
  · exact Or.inr h

namespace Answers.Ok
variable {k : Kernel} {a : Answers}

theorem name_ne (h : a.Ok k) {p : Path} {f : FileId} (hp : k.names p = some f) : f ≠ a.file :=
  fun he => h.file (he ▸ Or.inl ⟨p, hp⟩)

theorem setName (h : a.Ok k) {p : Path} (hp : a.temp ≠ p) {o : Option FileId}
    (ho : ∀ f, o = some f → f ≠ a.file) : a.Ok (k.setName p o) where
  temp := (Function.update_of_ne hp _ _).trans h.temp
  file := fun he => h.file (he.of_setName ho)
  fd := h.fd

theorem clear (h : a.Ok k) (f : FileId) : a.Ok (k.clear f) := ⟨h.temp, h.file, h.fd⟩

theorem install (h : a.Ok k) {f : FileId} (hf : a.file ≠ f) {fd : Nat} (hfd : a.fd ≠ fd) :
    a.Ok (k.install f fd) where
  temp := h.temp
  file := by
    rintro (he | ⟨fd', o, ho, hfile⟩)
    · exact h.file (Or.inl he)
    · by_cases hfd' : fd' = fd
      · have hnew : o = ⟨f, 0⟩ := by
          rw [hfd', Kernel.openFile] at ho
          simp only [Kernel.install, Function.update_self, Option.map_some] at ho
          exact (Option.some.inj ho).symm
        rw [hnew] at hfile
        exact hf hfile.symm
      · rw [Kernel.openFile_install hfd'] at ho
        exact h.file (Or.inr ⟨fd', o, ho, hfile⟩)
  fd := (Function.update_of_ne hfd _ _).trans h.fd

end Answers.Ok

/-- answers that differ from those to a call, and from its paths, are still possible after it -/
theorem PathStep.answers_ok {v v' : View N} {c : XCall} (h : PathStep v c v') {a : Answers}
    (ha : a.Ok v.kernel) (hpaths : a.temp ∉ c.paths) (htemp : a.temp ≠ v.temp)
    (hfile : a.file ≠ v.file) (hfd : a.fd ≠ v.fd) (ht : v.kernel.names v.temp = none) :
    a.Ok v'.kernel := by
  have hnew : ∀ f, some v.file = some f → f ≠ a.file := fun f hf he =>
    hfile (he.symm.trans (Option.some.inj hf).symm)
  have hnone : ∀ f, (none : Option FileId) = some f → f ≠ a.file := fun f hf => nomatch hf
  have hold : ∀ {k : Kernel} {p : Path} {f : FileId}, a.Ok k → k.names p = some f →
      ∀ g, some f = some g → g ≠ a.file := fun hk hp g hg => Option.some.inj hg ▸ hk.name_ne hp
  cases h with
  | @createNew p koa fd k' hp ho =>
    have hap : a.temp ≠ p := fun he => hpaths (by simp [XCall.paths, he])
    obtain ⟨-, rfl⟩ := sysOpen_create hp ho
    exact ((ha.setName hap hnew).clear _).install hfile hfd
  | @createOver p koa fd k₁ k' hp hr ho =>
    have hap : a.temp ≠ p := fun he => hpaths (by simp [XCall.paths, he])
    obtain ⟨g, hg, -, rfl⟩ := sysRename_ok hr ht
    obtain ⟨-, rfl⟩ := sysOpen_create (Function.update_self ..) ho
    have hmoved := (ha.setName htemp (hold ha hg)).setName hap hnone
    exact ((hmoved.setName hap hnew).clear _).install hfile hfd
  | renameMissing ho => exact ha
  | @renameNew old new koa k' ho hn hl =>
    have han : a.temp ≠ new := fun he => hpaths (by simp [XCall.paths, he])
    obtain ⟨g, hg, -, rfl⟩ := sysLink_ok hl
    exact ha.setName han (hold ha hg)
  | @renameOver old new koa koa' k₁ k' ho hn hr hl =>
    have han : a.temp ≠ new := fun he => hpaths (by simp [XCall.paths, he])
    obtain ⟨g, hg, -, rfl⟩ := sysRename_ok hr ht
    have hmoved := (ha.setName htemp (hold ha hg)).setName han hnone
    obtain ⟨f, hf, -, rfl⟩ := sysLink_ok hl
    exact hmoved.setName han (hold hmoved hf)
  | unlinkMissing hp => exact ha
  | unlink hp => exact ha

/-- answers that are possible at the beginning, and of which no two calls get the same, are ones
that the kernel may give -/
theorem admissible_of_pairwise {cs : List Request} (hc : ∀ c ∈ cs, c.call.OnNames)
    (hdiff : cs.Pairwise fun c d => d.answers.temp ∉ c.call.paths ∧
      d.answers.temp ≠ c.answers.temp ∧ d.answers.file ≠ c.answers.file ∧
      d.answers.fd ≠ c.answers.fd) :
    ∀ {m : XMach T n N}, m.world.xactstate = .retryable →
      (∀ c ∈ cs, c.answers.Ok m.world.kernel) → Admissible handleOk cs m := by
  induction cs with
  | nil => exact fun _ _ => trivial
  | cons c cs ih =>
    intro m hx hok
    obtain ⟨hhead, htail⟩ := List.pairwise_cons.mp hdiff
    have hans := hok c List.mem_cons_self
    refine ⟨hans, fun r m₁ h₁ => ?_⟩
    have hstep : PathStep (view (withAnswers m c.answers)) c.call (view m₁) :=
      run_view (m := withAnswers m c.answers) (path_view (hc c List.mem_cons_self) c.result _ hx) h₁
    refine ih (fun d hd => hc d (List.mem_cons_of_mem _ hd)) htail (hstep.xactstate.trans hx) ?_
    intro d hd
    obtain ⟨hpaths, htemp, hfile, hfd⟩ := hhead d hd
    exact hstep.answers_ok (hok d (List.mem_cons_of_mem _ hd)) hpaths htemp hfile hfd hans.temp

/-! ## three calls -/

def secondAnswers : Answers :=
  { smallAnswers with temp := "/tmp/libtxc.tmp.000002", file := ⟨1, 4, by decide⟩, fd := 5 }

def thirdAnswers : Answers :=
  { smallAnswers with temp := "/tmp/libtxc.tmp.000003", file := ⟨1, 5, by decide⟩, fd := 6 }

theorem smallKernel_exists {f : FileId} (h : smallKernel.Exists f) : f.ino = 1 ∨ f.ino = 2 := by
  rcases h with ⟨p, hp⟩ | ⟨fd, o, ho, -⟩
  · simp only [smallKernel] at hp
    split at hp
    · cases hp
      exact Or.inl rfl
    · split at hp
      · cases hp
        exact Or.inr rfl
      · cases hp
  · cases ho

theorem secondAnswers_ok : secondAnswers.Ok smallKernel :=
  ⟨by decide, fun h => absurd (smallKernel_exists h) (by decide), rfl⟩

theorem thirdAnswers_ok : thirdAnswers.Ok smallKernel :=
  ⟨by decide, fun h => absurd (smallKernel_exists h) (by decide), rfl⟩

/-- `a` is renamed to `b`, which has a file, `b` is created again, and renamed to `a` -/
def callsOnB : List Request :=
  [⟨.rename "a" "b", none, smallAnswers⟩, ⟨.create "b", none, secondAnswers⟩,
    ⟨.rename "b" "a", none, thirdAnswers⟩]

theorem abort_restores_names_callsOnB :
    ∃ out m', xRun handleOk callsOnB (xBegin (smallMach smallKernel)) = some (out, m') ∧
      m'.world.kernel.names "a" = some secondAnswers.file ∧
      ∃ fuel₀ o, (∀ fuel ≥ fuel₀, txGenericUndoAction exec fuel (xAbort m' .userabort) = some o) ∧
        o.mach.world.kernel.names = smallKernel.names ∧
        ∀ f, smallKernel.Exists f → o.mach.world.kernel.content f = smallKernel.content f := by
  have hrun : ((xRun handleOk callsOnB (xBegin (smallMach smallKernel))).map
      fun r => r.2.world.kernel.names "a") = some (some secondAnswers.file) := by decide +kernel
  obtain ⟨⟨out, m'⟩, h, ha⟩ := Option.map_eq_some_iff.mp hrun
  have hc : ∀ c ∈ callsOnB, c.call.OnNames := by
    simp [callsOnB, XCall.OnNames]
  refine ⟨out, m', h, ha, abort_restores_names (smallMach smallKernel) callsOnB hc ?_ out m' h _⟩
  refine admissible_of_pairwise hc (by decide) rfl ?_
  simp only [callsOnB, List.forall_mem_cons, List.not_mem_nil, false_implies, implies_true, and_true]
  exact ⟨smallAnswers_ok, secondAnswers_ok, thirdAnswers_ok⟩

end XCalls
