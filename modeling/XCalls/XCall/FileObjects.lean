import XCalls.Lib.TwoPhase
import XCalls.XCall.Contents

/-!
# Files as objects

* `Kernel.fileObs`   what a kernel has of a file: its bytes and the offsets of its open file
                   descriptions;
* `OnFile`         a system call on a descriptor, as a function of the bytes of its file and of its
                   offset; `OnFile.isConfined`: it reads and changes nothing but this file;
* `DataCall`, `DataCall.plain`   the calls on contents, as plain system calls;
* `XAction.undoes`, `effects_local`   their undo actions;
* `DataCall.Restorable`   the undo action of the call can restore the file.
-/

set_option linter.unusedSectionVars false

namespace XCalls
open TwoPhase
variable {n N : Nat} {R : Type}

/-! ## objects -/

/-- what a kernel has of a file -/
def Kernel.fileObs (k : Kernel) (f : FileId) : List UInt8 × (Nat → Option Nat) :=
  (k.content f, fun d => if (k.files d).file = f then some (k.files d).offset else none)

/-- the descriptors of `k₀`, on the same files -/
structure Like (k₀ k : Kernel) : Prop where
  fds : k.fds = k₀.fds
  file : ∀ d, (k.files d).file = (k₀.files d).file

theorem Like.refl (k : Kernel) : Like k k := ⟨rfl, fun _ => rfl⟩

def OpenIn (k : Kernel) (F : Set FileId) (fd : Nat) : Prop :=
  ∀ d, k.fds fd = some d → (k.files d).file ∈ F

theorem OpenIn.mono {k : Kernel} {F G : Set FileId} {fd : Nat} (h : OpenIn k F fd) (hFG : F ⊆ G) :
    OpenIn k G fd := fun d hd => hFG (h d hd)

/-- `m` is a system call on `fd`: `g` has its result, the new bytes of the file and the new
offset -/
structure OnFile (fd : Nat) (g : List UInt8 → Nat → R × List UInt8 × Nat)
    (m : Kernel → R × Kernel) : Prop where
  closed : ∃ r, ∀ {k}, k.fds fd = none → m k = (r, k)
  result : ∀ {k d}, k.fds fd = some d →
    (m k).1 = (g (k.content (k.files d).file) (k.files d).offset).1
  fds : ∀ {k d}, k.fds fd = some d → (m k).2.fds = k.fds
  content : ∀ {k d}, k.fds fd = some d → (m k).2.content
    = Function.update k.content (k.files d).file
        (g (k.content (k.files d).file) (k.files d).offset).2.1
  files : ∀ {k d}, k.fds fd = some d → (m k).2.files
    = Function.update k.files d { k.files d with
        offset := (g (k.content (k.files d).file) (k.files d).offset).2.2 }

section
variable {k₀ k k' : Kernel} {F : Set FileId} {fd d : Nat} {f : FileId}
  {g : List UInt8 → Nat → R × List UInt8 × Nat} {m : Kernel → R × Kernel}

theorem agree_content (h : Agree Kernel.fileObs F k k') (hf : f ∈ F) :
    k.content f = k'.content f := congrArg Prod.fst (h f hf)

theorem agree_offset (h : Agree Kernel.fileObs F k k') (hk : Like k₀ k) (hk' : Like k₀ k')
    (hf : (k₀.files d).file ∈ F) : (k.files d).offset = (k'.files d).offset := by
  have hd := congrFun (congrArg Prod.snd (h _ hf)) d
  simp only [Kernel.fileObs, hk.file, hk'.file, if_true] at hd
  exact Option.some.inj hd

theorem fileObs_eq (hk : Like k₀ k) (hk' : Like k₀ k') (hc : k.content f = k'.content f)
    (ho : ∀ d, (k₀.files d).file = f → (k.files d).offset = (k'.files d).offset) :
    k.fileObs f = k'.fileObs f := by
  refine Prod.ext hc (funext fun d => ?_)
  simp only [Kernel.fileObs, hk.file, hk'.file]
  by_cases hd : (k₀.files d).file = f
  · rw [if_pos hd, if_pos hd, ho d hd]
  · rw [if_neg hd, if_neg hd]

theorem OnFile.keeps (h : OnFile fd g m) (hk : Like k₀ k) : Like k₀ (m k).2 := by
  cases hd : k.fds fd with
  | none =>
    obtain ⟨r, hr⟩ := h.closed
    rw [hr hd]
    exact hk
  | some d =>
    refine ⟨(h.fds hd).trans hk.fds, fun d' => ?_⟩
    rw [h.files hd, Function.update_apply]
    split
    · rename_i heq
      rw [heq]
      exact hk.file d
    · exact hk.file d'

/-- **A system call on a descriptor** reads and changes nothing but its file. -/
theorem OnFile.isConfined (h : OnFile fd g m) (hF : OpenIn k₀ F fd) :
    Confined Kernel.fileObs (Like k₀) F m where
  keeps := h.keeps
  frame := by
    intro k hk f hf
    cases hd : k.fds fd with
    | none =>
      obtain ⟨r, hr⟩ := h.closed
      rw [hr hd]
    | some d =>
      have hin : (k.files d).file ∈ F := hk.file d ▸ hF d (hk.fds ▸ hd)
      have hne : (k.files d).file ≠ f := fun hc => hf (hc ▸ hin)
      refine fileObs_eq (h.keeps hk) hk ?_ fun d' hd' => ?_
      · rw [h.content hd, Function.update_of_ne (Ne.symm hne)]
      · have hdd : d' ≠ d := by
          intro hc
          subst hc
          exact hne ((hk.file d').trans hd')
        rw [h.files hd, Function.update_of_ne hdd]
  reads := by
    intro k k' hk hk' hag
    cases hd : k.fds fd with
    | none =>
      have hd' : k'.fds fd = none := by rw [hk'.fds, ← hk.fds, hd]
      obtain ⟨r, hr⟩ := h.closed
      rw [hr hd, hr hd']
      exact ⟨rfl, hag⟩
    | some d =>
      have hd' : k'.fds fd = some d := by rw [hk'.fds, ← hk.fds, hd]
      have hin : (k₀.files d).file ∈ F := hF d (hk.fds ▸ hd)
      have hfile : (k.files d).file = (k'.files d).file := (hk.file d).trans (hk'.file d).symm
      have hcont : k.content (k.files d).file = k'.content (k'.files d).file := by
        rw [← hfile]
        exact agree_content hag (by rw [hk.file]; exact hin)
      have hoff := agree_offset hag hk hk' hin
      refine ⟨by rw [h.result hd, h.result hd', hcont, hoff], fun f hf => ?_⟩
      refine fileObs_eq (h.keeps hk) (h.keeps hk') ?_ fun d' hd₀ => ?_
      · rw [h.content hd, h.content hd', hcont, hoff, hfile, Function.update_apply,
          Function.update_apply, agree_content hag hf]
      · rw [h.files hd, h.files hd', Function.update_apply, Function.update_apply]
        split
        · simp only [hcont, hoff]
        · exact agree_offset hag hk hk' (hd₀ ▸ hf)

end

/-! ## the system calls -/

theorem update_offset_self (k : Kernel) (d : Nat) :
    k.files = Function.update k.files d { k.files d with offset := (k.files d).offset } :=
  (Function.update_eq_self d k.files).symm

theorem update_content_self (k : Kernel) (f : FileId) :
    k.content = Function.update k.content f (k.content f) :=
  (Function.update_eq_self f k.content).symm

/-- what a system call has made of the description `d` and its file: `r` is the result, the contents
and the offset -/
structure ActsOn {α : Type} (k : Kernel) (d : Nat) (r : Except Errno α × List UInt8 × Nat)
    (out : Except Errno α × Kernel) : Prop where
  result : out.1 = r.1
  fds : out.2.fds = k.fds
  content : out.2.content = Function.update k.content (k.files d).file r.2.1
  files : out.2.files = Function.update k.files d { k.files d with offset := r.2.2 }

theorem ActsOn.failed {α : Type} (k : Kernel) (d : Nat) (e : Errno) :
    ActsOn (α := α) k d (.error e, k.content (k.files d).file, (k.files d).offset) (.error e, k) :=
  ⟨rfl, rfl, update_content_self _ _, update_offset_self _ _⟩

theorem OnFile.of_acts {α : Type} {fd : Nat}
    {op : List UInt8 → Nat → Except Errno α × List UInt8 × Nat}
    {sys : Kernel → Except Errno α × Kernel}
    (hclosed : ∀ {k}, k.fds fd = none → sys k = (.error .ebadf, k))
    (hopen : ∀ {k d}, k.fds fd = some d →
      ActsOn k d (op (k.content (k.files d).file) (k.files d).offset) (sys k)) :
    OnFile fd op sys where
  closed := ⟨.error .ebadf, hclosed⟩
  result h := (hopen h).result
  fds h := (hopen h).fds
  content h := (hopen h).content
  files h := (hopen h).files

theorem sysRead_onFile (fd nbyte : Nat) :
    OnFile fd (fun c x => if offMax < nbyte then (.error .einval, c, x)
      else (.ok ((c.drop x).take nbyte), c, x + ((c.drop x).take nbyte).length))
      fun k => sysRead k fd nbyte := by
  refine .of_acts (fun h => by simp only [sysRead, h]) fun {k d} h => ?_
  simp only [sysRead, h]
  split
  · exact .failed k d _
  · exact ⟨rfl, rfl, update_content_self _ _, rfl⟩

theorem sysWrite_onFile (fd : Nat) (buf : List UInt8) :
    OnFile fd (fun c x => if offMax < buf.length then (.error .einval, c, x)
      else if offMax < x + buf.length then (.error .efbig, c, x)
      else (.ok buf.length, overwrite c x buf, x + buf.length))
      fun k => sysWrite k fd buf := by
  refine .of_acts (fun h => by simp only [sysWrite, h]) fun {k d} h => ?_
  simp only [sysWrite, h]
  split
  · exact .failed k d _
  · split
    · exact .failed k d _
    · exact ⟨rfl, rfl, rfl, rfl⟩

/-- the position that an offset is relative to, in a file with the bytes `c` -/
def whenceBase (c : List UInt8) (x : Nat) : Whence → Nat
  | .seekSet => 0
  | .seekCur => x
  | .seekEnd => c.length

theorem base_eq (k : Kernel) (o : OpenFile) (whence : Whence) :
    k.base o whence = whenceBase (k.content o.file) o.offset whence := by
  cases whence <;> rfl

theorem sysLseek_onFile (fd : Nat) (offset : Int) (whence : Whence) :
    OnFile fd (fun c x => if (whenceBase c x whence : Int) + offset < 0 then (.error .einval, c, x)
      else if (offMax : Int) < whenceBase c x whence + offset then (.error .eoverflow, c, x)
      else (.ok (whenceBase c x whence + offset), c, (whenceBase c x whence + offset).toNat))
      fun k => sysLseek k fd offset whence := by
  refine .of_acts (fun h => by simp only [sysLseek, h]) fun {k d} h => ?_
  simp only [sysLseek, h, base_eq]
  split
  · exact .failed k d _
  · split
    · exact .failed k d _
    · exact ⟨rfl, rfl, update_content_self _ _, rfl⟩

theorem sysFtruncate_onFile (fd : Nat) (length : Int) :
    OnFile fd (fun c x => if length < 0 then (.error .einval, c, x)
      else if (offMax : Int) < length then (.error .efbig, c, x)
      else (.ok (), resize c length.toNat, x))
      fun k => sysFtruncate k fd length := by
  refine .of_acts (fun h => by simp only [sysFtruncate, h]) fun {k d} h => ?_
  simp only [sysFtruncate, h]
  split
  · exact .failed k d _
  · split
    · exact .failed k d _
    · exact ⟨rfl, rfl, rfl, update_offset_self _ _⟩

theorem sysPwrite_onFile (fd : Nat) (buf : List UInt8) (offset : Int) :
    OnFile fd (fun c x => if offset < 0 then (.error .einval, c, x)
      else if (offMax : Int) < offset + buf.length then (.error .efbig, c, x)
      else (.ok buf.length, overwrite c offset.toNat buf, x))
      fun k => sysPwrite k fd buf offset := by
  refine .of_acts (fun h => by simp only [sysPwrite, h]) fun {k d} h => ?_
  simp only [sysPwrite, h]
  split
  · exact .failed k d _
  · split
    · exact .failed k d _
    · exact ⟨rfl, rfl, rfl, update_offset_self _ _⟩

/-! ## the calls -/

/-- the calls on contents -/
inductive DataCall where
  | read (fd nbyte : Nat)
  | lseek (fd : Nat) (offset : Int) (whence : Whence)
  | write (fd : Nat) (buf : List UInt8) (flags : WriteFlags)
  deriving DecidableEq

abbrev DataResult := Int × List UInt8

namespace DataCall

def fd : DataCall → Nat
  | read fd _ => fd
  | lseek fd _ _ => fd
  | write fd _ _ => fd

/-- a system call as its function in the libc: `-1` when it fails -/
def libc {β : Type} (f : β → DataResult) (r : Except Errno β × Kernel) : DataResult × Kernel :=
  match r with
  | (.ok b, k) => (f b, k)
  | (.error _, k) => ((-1, []), k)

/-- the call outside a transaction -/
def plain : DataCall → Kernel → DataResult × Kernel
  | read fd nbyte, k => libc (fun data => (data.length, data)) (sysRead k fd nbyte)
  | lseek fd offset whence, k => libc (fun pos => (pos, [])) (sysLseek k fd offset whence)
  | write fd buf _, k => libc (fun n : Nat => (n, [])) (sysWrite k fd buf)

end DataCall

/-- the flags allow to restore the bytes `c` that are overwritten from the offset `x` on:
`TXC_WRITE_SEQ` at the end of the file, `TXC_WRITE_OVR_SAVE` not behind it, and
`TXC_WRITE_OVR_IGNORE` of nothing -/
def WriteFlags.Restores (c : List UInt8) (x : Nat) (buf : List UInt8) : WriteFlags → Prop
  | .seq => x = c.length
  | .ovrSave => x ≤ c.length
  | .ovrIgnore => buf = []

instance (c : List UInt8) (x : Nat) (buf : List UInt8) : ∀ flags : WriteFlags,
    Decidable (flags.Restores c x buf)
  | .seq => inferInstanceAs (Decidable (_ = _))
  | .ovrSave => inferInstanceAs (Decidable (_ ≤ _))
  | .ovrIgnore => inferInstanceAs (Decidable (_ = _))

/-- a call whose undo action can restore its file -/
def DataCall.Restorable (k : Kernel) : DataCall → Prop
  | write fd buf flags => ∀ o ∈ k.openFile fd, flags.Restores (k.content o.file) o.offset buf
  | _ => True

instance (k : Kernel) : ∀ c : DataCall, Decidable (c.Restorable k)
  | .read _ _ => isTrue trivial
  | .lseek _ _ _ => isTrue trivial
  | .write _ _ _ => inferInstanceAs (Decidable (∀ _ ∈ _, _))

section
variable {k₀ : Kernel} {F : Set FileId}

theorem libc_local {β : Type} {f : β → DataResult} {m : Kernel → Except Errno β × Kernel}
    (hm : Confined Kernel.fileObs (Like k₀) F m) :
    Confined Kernel.fileObs (Like k₀) F fun k => DataCall.libc f (m k) := by
  refine hm.of_bind fun r => ⟨_, Confined.pure (DataCall.libc f (r, k₀)).1, fun k hr => ?_⟩
  subst hr
  generalize m k = r
  obtain ⟨e | b, k'⟩ := r <;> rfl

theorem DataCall.plain_local {c : DataCall} (hF : OpenIn k₀ F c.fd) :
    Confined Kernel.fileObs (Like k₀) F c.plain := by
  cases c with
  | read fd nbyte => exact libc_local ((sysRead_onFile fd nbyte).isConfined hF)
  | lseek fd offset whence => exact libc_local ((sysLseek_onFile fd offset whence).isConfined hF)
  | write fd buf flags => exact libc_local ((sysWrite_onFile fd buf).isConfined hF)

/-- what a write can restore depends on nothing but its file -/
theorem DataCall.Restorable.agree {c : DataCall} {k k' : Kernel} (h : c.Restorable k)
    (hF : OpenIn k₀ F c.fd) (hk : Like k₀ k) (hk' : Like k₀ k')
    (hag : Agree Kernel.fileObs F k k') : c.Restorable k' := by
  cases c with
  | write fd buf flags =>
    intro o ho
    obtain ⟨d, hd, rfl⟩ := Option.map_eq_some_iff.mp ho
    have hd₀ : k₀.fds fd = some d := by rw [← hk'.fds]; exact hd
    have hd' : k.fds fd = some d := by rw [hk.fds]; exact hd₀
    have hin : (k₀.files d).file ∈ F := hF d hd₀
    have hrest := h (k.files d) (by
      simp only [Kernel.openFile, hd', Option.map_some, Option.mem_def])
    have hfile : (k'.files d).file = (k.files d).file := (hk'.file d).trans (hk.file d).symm
    rw [agree_content hag (by rw [hk.file]; exact hin), agree_offset hag hk hk' hin] at hrest
    rw [hfile]
    exact hrest
  | _ => trivial

/-! ## their undo actions -/

def XAction.undoes : XAction N → Option Nat
  | .readUndo fd _ => some fd
  | .lseekUndo fd _ => some fd
  | .writeSeqUndo fd _ => some fd
  | .writeOvrUndo fd _ _ _ => some fd
  | _ => none

def UndoesIn (k₀ : Kernel) (F : Set FileId) (l : List (XAction N × Int32)) : Prop :=
  ∀ x ∈ l, x.2 = regularActionOrder ∧ ∃ fd, x.1.undoes = some fd ∧ OpenIn k₀ F fd

theorem writeSeqUndo_local {fd : Nat} (hF : OpenIn k₀ F fd) (nbyte : Int) :
    Confined Kernel.fileObs (Like k₀) F fun k =>
      ((), (XAction.writeSeqUndo fd nbyte : XAction N).sys k) := by
  refine ((sysLseek_onFile fd (-nbyte) .seekCur).isConfined hF).of_bind fun r => ?_
  cases r with
  | error e => exact ⟨_, Confined.pure (), fun k hr => by simp only [XAction.sys, hr]⟩
  | ok offset =>
    have hcut := (sysFtruncate_onFile fd offset).isConfined hF
    exact ⟨_, hcut.bind fun _ => Confined.pure (), fun k hr => by simp only [XAction.sys, hr]⟩

/-- `x_write_ovr_undo` behind its seek, when there are less old bytes than new ones -/
def cutAndWrite (fd : Nat) (offset : Int) (data : List UInt8) (k : Kernel) : Kernel :=
  match (sysFtruncate k fd offset).1 with
  | .ok _ => (sysPwrite (sysFtruncate k fd offset).2 fd data offset).2
  | .error _ => (sysFtruncate k fd offset).2

theorem cutAndWrite_local {fd : Nat} (hF : OpenIn k₀ F fd) (offset : Int) (data : List UInt8) :
    Confined Kernel.fileObs (Like k₀) F fun k => ((), cutAndWrite fd offset data k) := by
  refine ((sysFtruncate_onFile fd offset).isConfined hF).of_bind fun r => ?_
  cases r with
  | error e => exact ⟨_, Confined.pure (), fun k hr => by simp only [cutAndWrite, hr]⟩
  | ok u =>
    have hwrite := (sysPwrite_onFile fd data offset).isConfined hF
    exact ⟨_, hwrite.bind fun _ => Confined.pure (), fun k hr => by simp only [cutAndWrite, hr]⟩

theorem writeOvrUndo_cut {fd : Nat} {data : List UInt8} {nbyteNew nbyteOld offset : Int} {k : Kernel}
    (hr : (sysLseek k fd (-nbyteNew) .seekCur).1 = .ok offset) (h : nbyteOld < nbyteNew) :
    writeOvrUndoSys fd (some data) nbyteNew nbyteOld k
      = cutAndWrite fd offset (data.take nbyteOld.toNat) (sysLseek k fd (-nbyteNew) .seekCur).2 := by
  cases hc : (sysFtruncate (sysLseek k fd (-nbyteNew) .seekCur).2 fd offset).1 with
  | error e => simp only [writeOvrUndoSys, cutAndWrite, hr, h, if_true, hc]
  | ok u => simp only [writeOvrUndoSys, cutAndWrite, hr, h, if_true, hc]

theorem writeOvrUndo_local {fd : Nat} (hF : OpenIn k₀ F fd) (buf : Option (List UInt8))
    (nbyteNew nbyteOld : Int) :
    Confined Kernel.fileObs (Like k₀) F fun k =>
      ((), writeOvrUndoSys fd buf nbyteNew nbyteOld k) := by
  refine ((sysLseek_onFile fd (-nbyteNew) .seekCur).isConfined hF).of_bind fun r => ?_
  cases r with
  | error e => exact ⟨_, Confined.pure (), fun k hr => by simp only [writeOvrUndoSys, hr]⟩
  | ok offset =>
    cases buf with
    | none => exact ⟨_, Confined.pure (), fun k hr => by simp only [writeOvrUndoSys, hr]⟩
    | some data =>
      by_cases h : nbyteOld < nbyteNew
      · exact ⟨_, cutAndWrite_local hF offset (data.take nbyteOld.toNat), fun k hr => by
          rw [writeOvrUndo_cut hr h]⟩
      · have hwrite := (sysPwrite_onFile fd (data.take nbyteOld.toNat) offset).isConfined hF
        exact ⟨_, hwrite.bind fun _ => Confined.pure (), fun k hr => by
          simp only [writeOvrUndoSys, hr, h, if_false]⟩

theorem XAction.sys_local {a : XAction N} {fd : Nat} (ha : a.undoes = some fd)
    (hF : OpenIn k₀ F fd) : Confined Kernel.fileObs (Like k₀) F fun k => ((), a.sys k) := by
  cases a with
  | readUndo fd' nbyte =>
    cases ha
    exact Confined.bind ((sysLseek_onFile fd (-nbyte) .seekCur).isConfined hF)
      fun _ => Confined.pure ()
  | lseekUndo fd' pos =>
    cases ha
    exact Confined.bind ((sysLseek_onFile fd pos .seekSet).isConfined hF) fun _ => Confined.pure ()
  | writeSeqUndo fd' nbyte =>
    cases ha
    exact writeSeqUndo_local hF nbyte
  | writeOvrUndo fd' buf nbyteNew nbyteOld =>
    cases ha
    exact writeOvrUndo_local hF buf nbyteNew nbyteOld
  | _ => cases ha

theorem effects_local {l : List (XAction N × Int32)} (hl : UndoesIn k₀ F l) :
    Confined Kernel.fileObs (Like k₀) F fun k => ((), effects l k) := by
  induction l with
  | nil => exact Confined.pure ()
  | cons x l ih =>
    obtain ⟨-, fd, hfd, hF⟩ := hl x List.mem_cons_self
    have hx := XAction.sys_local hfd hF
    exact Confined.bind hx fun _ => ih fun y hy => hl y (List.mem_cons_of_mem _ hy)

end

/-! ## what an undo action restores -/

section
variable {k k' : Kernel} {fd d : Nat} {buf old : List UInt8}

theorem Padded.agree {F : Set FileId} {g : FileId → Nat} {c : Kernel} (h : Padded g k c)
    (hg : ∀ f ∈ F, g f = 0) : Agree Kernel.fileObs F c k := by
  intro f hf
  have hc : c.content f = k.content f := by
    rw [h.content, hg f hf]
    exact List.append_nil _
  simp only [Kernel.fileObs, hc, h.files]

theorem agree_of_reverts {a : XAction N} {γ : FileId → Option Nat} {o : Int32} {F : Set FileId}
    (h : Reverts [(a, o)] γ k k') (hγ : ∀ f, γ f = none ∨ γ f = some 0) :
    Agree Kernel.fileObs F (a.sys k') k := by
  refine (h (fun _ => 0) k' (Padded.refl k')).agree fun f _ => ?_
  rcases hγ f with h0 | h0 <;> rw [h0] <;> rfl

def Kernel.alone (k : Kernel) : FileView N :=
  { kernel := k
    temp := ""
    file := smallAnswers.file
    fd := 0
    xactstate := .retryable
    commits := []
    undos := []
    map := fun _ => none
    linear := ⟨0, 0⟩ }

theorem seek_undone {xc : XCall} {a : XAction N} {F : Set FileId}
    (h : FileStep (k.alone : FileView N) xc { (k.alone : FileView N).toView with
      kernel := k'
      undos := [] ++ [(a, regularActionOrder)] }) (hxc : xc.Saving)
    (hgap : ∀ f, (k.alone : FileView N).gap f xc = none) : Agree Kernel.fileObs F (a.sys k') k := by
  obtain ⟨l, hl, -, hrev⟩ := reverts_step h hxc
  obtain rfl : [(a, regularActionOrder)] = l := hl
  exact agree_of_reverts hrev fun f => Or.inl (hgap f)

theorem read_undone {F : Set FileId} {nbyte : Nat} {data : List UInt8}
    (h : sysRead k fd nbyte = (.ok data, k')) :
    Agree Kernel.fileObs F ((.readUndo fd data.length : XAction N).sys k') k :=
  seek_undone (.read h) trivial fun _ => rfl

theorem seekCur_undone {F : Set FileId} {offset ret : Int}
    (h : sysLseek k fd offset .seekCur = (.ok ret, k')) :
    Agree Kernel.fileObs F ((.lseekUndo fd (ret - offset) : XAction N).sys k') k :=
  seek_undone (.seekCur h) trivial fun _ => rfl

theorem seekTo_undone {F : Set FileId} {offset old ret : Int} {whence : Whence} {k₁ : Kernel}
    (h₁ : sysLseek k fd 0 .seekCur = (.ok old, k₁))
    (h : sysLseek k₁ fd offset whence = (.ok ret, k')) :
    Agree Kernel.fileObs F ((.lseekUndo fd old : XAction N).sys k') k :=
  seek_undone (.seekTo h₁ h) trivial fun _ => rfl

theorem writeSave_undone {F : Set FileId} {ret : Nat}
    (hrest : (DataCall.write fd buf .ovrSave).Restorable k) (hd : k.fds fd = some d)
    (h : sysWrite k fd buf = (.ok ret, k')) :
    Agree Kernel.fileObs F ((.writeOvrUndo fd (some (k.readAt (k.files d) buf.length)) ret
      (k.readAt (k.files d) buf.length).length : XAction N).sys k') k := by
  obtain ⟨d', hc, ho, hd', rfl, rfl⟩ := sysWrite_ok h
  obtain rfl : d = d' := Option.some.inj (hd.symm.trans hd')
  refine agree_of_reverts (o := 0) (reverts_write hc ho hd rfl fun _ => rfl) fun f => ?_
  have hle := hrest (k.files d) (by simp only [Kernel.openFile, hd, Option.map_some,
    Option.mem_def])
  split
  · rename_i hf
    rw [← hf.1, Nat.sub_eq_zero_of_le hle]
    exact Or.inr rfl
  · exact Or.inl rfl

theorem sysLseek_back (fd : Nat) (buf : List UInt8) {x : Nat} (hd : k.fds fd = some d)
    (ho : (k.files d).offset = x + buf.length) (hx : x ≤ offMax) :
    sysLseek k fd (-(buf.length : Nat)) .seekCur = (.ok (x : Int), k.setOffset d x hx) := by
  refine sysLseek_eq hd ?_ hx
  show ((k.files d).offset : Int) + -buf.length = x
  rw [ho]
  omega

/-- a kernel with the bytes of one file and one offset set, and set back -/
theorem agree_set_back {F : Set FileId} {c : List UInt8} {x : Nat} (hc : c.length ≤ offMax)
    (hx : x ≤ offMax) {c₀ : List UInt8} (hc₀ : c₀.length ≤ offMax)
    (hcont : c₀ = k.content (k.files d).file) :
    Agree Kernel.fileObs F ((((k.setContent (k.files d).file c hc).setOffset d x hx).setOffset d
      (k.files d).offset (k.offset_le d)).setContent (k.files d).file c₀ hc₀) k := by
  intro f _
  have hcontent : Function.update (Function.update k.content (k.files d).file c)
      (k.files d).file c₀ = k.content := by
    rw [Function.update_idem, hcont, Function.update_eq_self]
  have hfiles : Function.update (Function.update k.files d { k.files d with offset := x }) d
      { (Function.update k.files d { k.files d with offset := x }) d with
        offset := (k.files d).offset } = k.files := by
    rw [Function.update_idem, Function.update_self]
    exact Function.update_eq_self d k.files
  simp only [Kernel.fileObs, Kernel.setContent, Kernel.setOffset, hcontent, hfiles]

theorem writeSeq_undone {F : Set FileId} {ret : Nat}
    (hrest : (DataCall.write fd buf .seq).Restorable k)
    (h : sysWrite k fd buf = (.ok ret, k')) :
    Agree Kernel.fileObs F ((.writeSeqUndo fd ret : XAction N).sys k') k := by
  obtain ⟨d, hc, ho, hd, rfl, rfl⟩ := sysWrite_ok h
  have hend : (k.files d).offset = (k.content (k.files d).file).length :=
    hrest (k.files d) (by simp only [Kernel.openFile, hd, Option.map_some, Option.mem_def])
  have hseek := sysLseek_back fd buf (k := (k.setContent (k.files d).file _ hc).setOffset d _ ho)
    (x := (k.files d).offset) hd
    (by simp only [Kernel.setOffset, Function.update_self]) (k.offset_le d)
  obtain ⟨hc', hcut⟩ := sysFtruncate_eq (x := (k.files d).offset) (f := (k.files d).file)
    (k := ((k.setContent (k.files d).file _ hc).setOffset d _ ho).setOffset d
      (k.files d).offset (k.offset_le d)) hd
    (by simp only [Kernel.setOffset, Kernel.setContent, Function.update_self]) (k.offset_le d)
  simp only [XAction.sys, hseek, hcut]
  refine agree_set_back hc ho hc' ?_
  have happ := overwrite_end (k.content (k.files d).file) [] (Nat.zero_le buf.length)
  rw [List.append_nil] at happ
  simp only [Kernel.setOffset, Kernel.setContent, Function.update_self]
  rw [hend, happ]
  exact resize_left _ _

theorem writeIgnore_undone {F : Set FileId} {ret : Nat}
    (hrest : (DataCall.write fd buf .ovrIgnore).Restorable k)
    (h : sysWrite k fd buf = (.ok ret, k')) :
    Agree Kernel.fileObs F ((.writeOvrUndo fd none ret 0 : XAction N).sys k') k := by
  obtain ⟨d, hc, ho, hd, rfl, rfl⟩ := sysWrite_ok h
  have hnil : buf = [] :=
    hrest (k.files d) (by simp only [Kernel.openFile, hd, Option.map_some, Option.mem_def])
  have hseek := sysLseek_back fd buf (k := (k.setContent (k.files d).file _ hc).setOffset d _ ho)
    (x := (k.files d).offset) hd
    (by simp only [Kernel.setOffset, Function.update_self]) (k.offset_le d)
  simp only [XAction.sys, writeOvrUndoSys, hseek]
  have hback := agree_set_back (F := F) hc ho (k.size_le (k.files d).file) rfl
  intro f hf
  refine Eq.trans ?_ (hback f hf)
  simp only [Kernel.fileObs, Kernel.setContent, Kernel.setOffset, hnil, overwrite_nil,
    Function.update_idem]

end

end XCalls
