import Mathlib

/-!
# The kernel: names, files, descriptors

* `FileId`       a file is identified by its device and its inode number;
* `Kernel`       the names and the files they are links to, the contents, and the descriptors with
                 their open file descriptions (offset, not in `O_APPEND` mode);
* `sysOpen`, `sysClose`, `sysDup`, `sysRead`, `sysWrite`, `sysLseek`, `sysFtruncate`, `sysPwrite`,
  `sysRename`, `sysLink`, `sysUnlink`, `sysPipe`, `sysSocket`, `sysFsync`   the system calls as in
                 POSIX: the result and the kernel afterwards;
* `Kernel.Exists`   the file has a name or is open.

`int`, `size_t`, `off_t` and `ino_t` have 32 bits.  A path name is an atom, as if it fitted the
arrays of `TXC_MAX_LEN_PATHNAME` characters it is copied to.  The file and the descriptor that the
kernel picks for a call are arguments here.
-/

namespace XCalls

abbrev Path := String

/-- a file; no file has the inode number 0 -/
structure FileId where
  dev : Nat
  ino : UInt32
  ino_ne : ino ≠ 0
  deriving DecidableEq

/-! ## error numbers -/

abbrev Errno := Int

namespace Errno

def enoent : Errno := 2
def ebadf : Errno := 9
def enomem : Errno := 12
def eacces : Errno := 13
def eexist : Errno := 17
def exdev : Errno := 18
def einval : Errno := 22
def efbig : Errno := 27
def eoverflow : Errno := 75

end Errno

/-! ## the state -/

/-- an open file description -/
structure OpenFile where
  file : FileId
  offset : Nat
  deriving DecidableEq

/-- the largest `off_t` and the largest `ssize_t` -/
def offMax : Nat := 2 ^ 31 - 1

/-- `mount` is the device that a path lies on, `files` are the open file descriptions, and `next`
is the first one that was never used -/
structure Kernel where
  mount : Path → Nat
  names : Path → Option FileId
  content : FileId → List UInt8
  fds : Nat → Option Nat
  files : Nat → OpenFile
  next : Nat
  size_le : ∀ f, (content f).length ≤ offMax
  offset_le : ∀ d, (files d).offset ≤ offMax
  lt_next : ∀ {fd d : Nat}, fds fd = some d → d < next

def zeros (n : Nat) : List UInt8 := List.replicate n 0

/-- bytes written at an offset; a gap behind the end reads as zeros, and nothing happens when
there are no bytes -/
def overwrite (c : List UInt8) (off : Nat) (buf : List UInt8) : List UInt8 :=
  if buf = [] then c
  else (c ++ zeros (off - c.length)).take off ++ buf ++ c.drop (off + buf.length)

/-- the file cut or filled with zeros to a length -/
def resize (c : List UInt8) (len : Nat) : List UInt8 := c.take len ++ zeros (len - c.length)

theorem length_overwrite (c : List UInt8) (off : Nat) {buf : List UInt8} (h : buf ≠ []) :
    (overwrite c off buf).length = max c.length (off + buf.length) := by
  rw [overwrite, if_neg h]
  simp only [List.length_append, List.length_take, List.length_drop, zeros, List.length_replicate]
  omega

theorem length_overwrite_le {c : List UInt8} {off : Nat} {buf : List UInt8} {b : Nat}
    (hc : c.length ≤ b) (ho : off + buf.length ≤ b) : (overwrite c off buf).length ≤ b := by
  by_cases h : buf = []
  · rw [overwrite, if_pos h]
    exact hc
  · rw [length_overwrite c off h]
    exact Nat.max_le.mpr ⟨hc, ho⟩

theorem length_resize (c : List UInt8) (len : Nat) : (resize c len).length = len := by
  simp only [resize, List.length_append, List.length_take, zeros, List.length_replicate]
  omega

inductive Whence where
  | seekSet
  | seekCur
  | seekEnd
  deriving DecidableEq, Repr

/-- the flags of `open` that matter here -/
structure OpenFlags where
  creat : Bool
  excl : Bool
  trunc : Bool
  deriving DecidableEq, Repr

namespace Kernel

/-- the open file description behind a descriptor -/
def openFile (k : Kernel) (fd : Nat) : Option OpenFile := (k.fds fd).map k.files

/-- the file has a name or is open -/
def Exists (k : Kernel) (f : FileId) : Prop :=
  (∃ p, k.names p = some f) ∨ ∃ fd o, k.openFile fd = some o ∧ o.file = f

def setContent (k : Kernel) (f : FileId) (c : List UInt8) (h : c.length ≤ offMax) : Kernel :=
  { k with
    content := Function.update k.content f c
    size_le := fun g => by
      by_cases hg : g = f
      · rw [hg, Function.update_self]
        exact h
      · rw [Function.update_of_ne hg]
        exact k.size_le g }

/-- the file is emptied -/
def clear (k : Kernel) (f : FileId) : Kernel := k.setContent f [] (Nat.zero_le _)

def setOffset (k : Kernel) (d off : Nat) (h : off ≤ offMax) : Kernel :=
  { k with
    files := Function.update k.files d { k.files d with offset := off }
    offset_le := fun e => by
      by_cases he : e = d
      · rw [he, Function.update_self]
        exact h
      · rw [Function.update_of_ne he]
        exact k.offset_le e }

def setName (k : Kernel) (p : Path) (f : Option FileId) : Kernel :=
  { k with names := Function.update k.names p f }

theorem lt_next_update (k : Kernel) (fd : Nat) {o : Option Nat} {m : Nat} (hm : k.next ≤ m)
    (ho : ∀ d, o = some d → d < m) {fd' d : Nat} (h : Function.update k.fds fd o fd' = some d) :
    d < m := by
  rw [Function.update_apply] at h
  split at h
  · exact ho d h
  · exact Nat.lt_of_lt_of_le (k.lt_next h) hm

/-- a descriptor with a new open file description -/
def install (k : Kernel) (f : FileId) (fd : Nat) : Kernel :=
  { k with
    fds := Function.update k.fds fd (some k.next)
    files := Function.update k.files k.next ⟨f, 0⟩
    next := k.next + 1
    offset_le := fun d => by
      by_cases hd : d = k.next
      · rw [hd, Function.update_self]
        exact Nat.zero_le _
      · rw [Function.update_of_ne hd]
        exact k.offset_le d
    lt_next := k.lt_next_update fd (Nat.le_succ _) fun _ h => Option.some.inj h ▸ Nat.lt_succ_self _ }

/-- a descriptor is closed, or refers to the open file description of another one -/
def setFd (k : Kernel) (fd : Nat) (o : Option Nat) (ho : ∀ d, o = some d → d < k.next) : Kernel :=
  { k with
    fds := Function.update k.fds fd o
    lt_next := k.lt_next_update fd (Nat.le_refl _) ho }

end Kernel

/-! ## descriptors -/

def sysOpen (k : Kernel) (path : Path) (flags : OpenFlags) (file : FileId) (fd : Nat) :
    Except Errno Nat × Kernel :=
  match k.names path with
  | some f =>
    if flags.creat && flags.excl then (.error .eexist, k)
    else (.ok fd, (if flags.trunc then k.clear f else k).install f fd)
  | none =>
    if flags.creat then (.ok fd, ((k.setName path (some file)).clear file).install file fd)
    else (.error .enoent, k)

def sysClose (k : Kernel) (fd : Nat) : Except Errno Unit × Kernel :=
  match k.fds fd with
  | none => (.error .ebadf, k)
  | some _ => (.ok (), k.setFd fd none fun _ h => nomatch h)

def sysDup (k : Kernel) (oldfd fd : Nat) : Except Errno Nat × Kernel :=
  match k.fds oldfd with
  | none => (.error .ebadf, k)
  | some _ => (.ok fd, k.setFd fd (k.fds oldfd) fun _ hd => k.lt_next hd)

/-- two descriptions of one file of the pipe file system: what is written through one of them is
read through the other -/
def sysPipe (k : Kernel) (file : FileId) (fd0 fd1 : Nat) : Except Errno (Nat × Nat) × Kernel :=
  (.ok (fd0, fd1), ((k.clear file).install file fd0).install file fd1)

def sysSocket (k : Kernel) (file : FileId) (fd : Nat) : Except Errno Nat × Kernel :=
  (.ok fd, k.install file fd)

/-- `fsync` and `fdatasync` -/
def sysFsync (k : Kernel) (fd : Nat) : Except Errno Unit × Kernel :=
  match k.fds fd with
  | none => (.error .ebadf, k)
  | some _ => (.ok (), k)

/-- a message of `nbyte` bytes leaves the machine -/
def sysSendmsg (k : Kernel) (fd nbyte : Nat) : Except Errno Nat × Kernel :=
  match k.fds fd with
  | none => (.error .ebadf, k)
  | some _ => (.ok nbyte, k)

/-! ## contents -/

/-- the bytes behind the offset -/
def Kernel.readAt (k : Kernel) (o : OpenFile) (nbyte : Nat) : List UInt8 :=
  ((k.content o.file).drop o.offset).take nbyte

theorem Kernel.length_readAt (k : Kernel) (o : OpenFile) (nbyte : Nat) :
    (k.readAt o nbyte).length = min nbyte ((k.content o.file).length - o.offset) := by
  rw [readAt, List.length_take, List.length_drop]

theorem Kernel.readAt_le (k : Kernel) (d nbyte : Nat) :
    (k.files d).offset + (k.readAt (k.files d) nbyte).length ≤ offMax := by
  have h1 := k.offset_le d
  have h2 := k.size_le (k.files d).file
  rw [length_readAt]
  omega

def sysRead (k : Kernel) (fd nbyte : Nat) : Except Errno (List UInt8) × Kernel :=
  match k.fds fd with
  | none => (.error .ebadf, k)
  | some d =>
    if offMax < nbyte then (.error .einval, k)
    else (.ok (k.readAt (k.files d) nbyte), k.setOffset d _ (k.readAt_le d nbyte))

def sysWrite (k : Kernel) (fd : Nat) (buf : List UInt8) : Except Errno Nat × Kernel :=
  match k.fds fd with
  | none => (.error .ebadf, k)
  | some d =>
    let o := k.files d
    if offMax < buf.length then (.error .einval, k)
    else if h : offMax < o.offset + buf.length then (.error .efbig, k)
    else (.ok buf.length,
      (k.setContent o.file (overwrite (k.content o.file) o.offset buf)
        (length_overwrite_le (k.size_le _) (Nat.not_lt.mp h))).setOffset d
          (o.offset + buf.length) (Nat.not_lt.mp h))

/-- the position that an offset is relative to -/
def Kernel.base (k : Kernel) (o : OpenFile) : Whence → Nat
  | .seekSet => 0
  | .seekCur => o.offset
  | .seekEnd => (k.content o.file).length

def sysLseek (k : Kernel) (fd : Nat) (offset : Int) (whence : Whence) : Except Errno Int × Kernel :=
  match k.fds fd with
  | none => (.error .ebadf, k)
  | some d =>
    let pos : Int := k.base (k.files d) whence + offset
    if pos < 0 then (.error .einval, k)
    else if h : (offMax : Int) < pos then (.error .eoverflow, k)
    else (.ok pos, k.setOffset d pos.toNat (by omega))

def sysFtruncate (k : Kernel) (fd : Nat) (length : Int) : Except Errno Unit × Kernel :=
  match k.fds fd with
  | none => (.error .ebadf, k)
  | some d =>
    let f := (k.files d).file
    if length < 0 then (.error .einval, k)
    else if h : (offMax : Int) < length then (.error .efbig, k)
    else (.ok (), k.setContent f (resize (k.content f) length.toNat)
      (by rw [length_resize]; omega))

def sysPwrite (k : Kernel) (fd : Nat) (buf : List UInt8) (offset : Int) :
    Except Errno Nat × Kernel :=
  match k.fds fd with
  | none => (.error .ebadf, k)
  | some d =>
    let f := (k.files d).file
    if h0 : offset < 0 then (.error .einval, k)
    else if h : (offMax : Int) < offset + buf.length then (.error .efbig, k)
    else (.ok buf.length, k.setContent f (overwrite (k.content f) offset.toNat buf)
      (length_overwrite_le (k.size_le _) (by omega)))

/-! ## names -/

/-- two names of one file are left alone -/
def sysRename (k : Kernel) (oldpath newpath : Path) : Except Errno Unit × Kernel :=
  match k.names oldpath with
  | none => (.error .enoent, k)
  | some f =>
    if k.mount oldpath ≠ k.mount newpath then (.error .exdev, k)
    else if k.names newpath = some f then (.ok (), k)
    else (.ok (), (k.setName newpath (some f)).setName oldpath none)

def sysLink (k : Kernel) (oldpath newpath : Path) : Except Errno Unit × Kernel :=
  match k.names oldpath with
  | none => (.error .enoent, k)
  | some f =>
    if k.mount oldpath ≠ k.mount newpath then (.error .exdev, k)
    else if k.names newpath ≠ none then (.error .eexist, k)
    else (.ok (), k.setName newpath (some f))

def sysUnlink (k : Kernel) (path : Path) : Except Errno Unit × Kernel :=
  match k.names path with
  | none => (.error .enoent, k)
  | some _ => (.ok (), k.setName path none)

/-! ## what the calls on names do -/

section
variable {k k' : Kernel} {old new p : Path}

@[simp] theorem sysUnlink_names (k : Kernel) (p : Path) :
    (sysUnlink k p).2.names = Function.update k.names p none := by
  unfold sysUnlink
  split
  · rename_i h
    rw [← h, Function.update_eq_self]
  · rfl

@[simp] theorem sysUnlink_mount (k : Kernel) (p : Path) : (sysUnlink k p).2.mount = k.mount := by
  unfold sysUnlink
  split <;> rfl

@[simp] theorem sysUnlink_content (k : Kernel) (p : Path) :
    (sysUnlink k p).2.content = k.content := by
  unfold sysUnlink
  split <;> rfl

@[simp] theorem sysRename_mount (k : Kernel) (old new : Path) :
    (sysRename k old new).2.mount = k.mount := by
  unfold sysRename
  repeat' split
  all_goals rfl

@[simp] theorem sysRename_content (k : Kernel) (old new : Path) :
    (sysRename k old new).2.content = k.content := by
  unfold sysRename
  repeat' split
  all_goals rfl

theorem sysRename_eq {f : FileId} (ho : k.names old = some f) (hm : k.mount old = k.mount new)
    (hn : k.names new = none) :
    sysRename k old new = (.ok (), (k.setName new (some f)).setName old none) := by
  simp [sysRename, ho, hm, hn]

theorem sysRename_ok (h : sysRename k old new = (.ok (), k')) (hn : k.names new = none) :
    ∃ f, k.names old = some f ∧ k.mount old = k.mount new ∧
      k' = (k.setName new (some f)).setName old none := by
  unfold sysRename at h
  split at h
  · cases h
  · rename_i f hf
    split at h
    · cases h
    · rename_i hm
      rw [hn, if_neg (by simp)] at h
      cases h
      exact ⟨f, hf, not_not.mp hm, rfl⟩

theorem sysLink_ok (h : sysLink k old new = (.ok (), k')) :
    ∃ f, k.names old = some f ∧ k.names new = none ∧ k' = k.setName new (some f) := by
  unfold sysLink at h
  split at h
  · cases h
  · rename_i f hf
    split at h
    · cases h
    · split at h
      · cases h
      · rename_i hn
        cases h
        exact ⟨f, hf, not_not.mp hn, rfl⟩

@[simp] theorem sysClose_names (k : Kernel) (fd : Nat) : (sysClose k fd).2.names = k.names := by
  unfold sysClose
  split <;> rfl

@[simp] theorem sysClose_mount (k : Kernel) (fd : Nat) : (sysClose k fd).2.mount = k.mount := by
  unfold sysClose
  split <;> rfl

@[simp] theorem sysClose_content (k : Kernel) (fd : Nat) :
    (sysClose k fd).2.content = k.content := by
  unfold sysClose
  split <;> rfl

/-! ## files do not disappear -/

namespace Kernel

theorem openFile_install {f : FileId} {fd fd' : Nat} (h : fd' ≠ fd) :
    (k.install f fd).openFile fd' = k.openFile fd' := by
  show Option.map (Function.update k.files k.next ⟨f, 0⟩) (Function.update k.fds fd _ fd')
    = Option.map k.files (k.fds fd')
  rw [Function.update_of_ne h]
  cases hd : k.fds fd' with
  | none => rfl
  | some d =>
    have hne : d ≠ k.next := Nat.ne_of_lt (k.lt_next hd)
    simp only [Option.map_some, Function.update_of_ne hne]

theorem Exists.mono {f : FileId} (h : k.Exists f)
    (hn : ∀ p, k.names p = some f → ∃ q, k'.names q = some f)
    (ho : ∀ fd o, k.openFile fd = some o → k'.openFile fd = some o) : k'.Exists f := by
  rcases h with ⟨p, hp⟩ | ⟨fd, o, hfd, hf⟩
  · exact Or.inl (hn p hp)
  · exact Or.inr ⟨fd, o, ho fd o hfd, hf⟩

end Kernel

end

end XCalls
