import XCalls.XCall.FileSteps

/-!
# What abort makes of the contents of files

`x_write_ovr_undo` cuts the file to the offset of the write when the write passed the end, so a
write that started behind the end leaves zeros up to its offset.

* `undo_overwrite`   one write and its undo action, on the bytes;
* `Reverts`          the undo actions registered since a state lead back to it, up to zeros at the
                     end of the files that became longer;
* `firstGap`         how far behind the end the first write starts that makes a file longer;
* `abort_restores_contents`   the contents are restored if and only if this is not positive.
-/

set_option linter.unusedSectionVars false

namespace XCalls
open Prog
variable {T : Type} [DecidableEq T] {n N : Nat}

/-! ## bytes -/

@[simp] theorem length_zeros (n : Nat) : (zeros n).length = n := List.length_replicate

@[simp] theorem overwrite_nil (c : List UInt8) (off : Nat) : overwrite c off [] = c := if_pos rfl

theorem overwrite_inside (A B D : List UInt8) {buf : List UInt8} (h : B.length = buf.length) :
    overwrite (A ++ B ++ D) A.length buf = A ++ buf ++ D := by
  unfold overwrite
  split
  · rename_i hb
    rw [hb, List.length_nil, List.length_eq_zero_iff] at h
    rw [hb, h]
  · have htake : (A ++ B ++ D ++ zeros (A.length - (A ++ B ++ D).length)).take A.length = A := by
      rw [List.append_assoc, List.append_assoc, List.take_left]
    have hdrop : (A ++ B ++ D).drop (A.length + buf.length) = D := by
      rw [← h, ← List.length_append, List.drop_left]
    rw [htake, hdrop]

theorem overwrite_end (A B : List UInt8) {buf : List UInt8} (h : B.length ≤ buf.length) :
    overwrite (A ++ B) A.length buf = A ++ buf := by
  unfold overwrite
  split
  · rename_i hb
    rw [hb, List.length_nil, Nat.le_zero, List.length_eq_zero_iff] at h
    rw [hb, h]
  · have htake : (A ++ B ++ zeros (A.length - (A ++ B).length)).take A.length = A := by
      rw [List.append_assoc, List.take_left]
    have hdrop : (A ++ B).drop (A.length + buf.length) = [] := by
      rw [List.drop_eq_nil_iff, List.length_append]
      omega
    rw [htake, hdrop, List.append_nil]

theorem resize_left (A B : List UInt8) : resize (A ++ B) A.length = A := by
  rw [resize, List.take_left, List.length_append, Nat.sub_eq_zero_of_le (Nat.le_add_right _ _)]
  exact List.append_nil A

theorem overwrite_behind (c : List UInt8) {off : Nat} {buf : List UInt8} (h : c.length ≤ off)
    (hb : buf ≠ []) : overwrite c off buf = c ++ zeros (off - c.length) ++ buf := by
  have hlen : (c ++ zeros (off - c.length)).length = off := by
    rw [List.length_append, length_zeros]
    omega
  rw [overwrite, if_neg hb, List.take_of_length_le (Nat.le_of_eq hlen),
    List.drop_eq_nil_of_le (by omega), List.append_nil]

/-- `x_write_ovr` at `off` and then `x_write_ovr_undo`, when there were `g` zeros behind the end -/
def undoneWrite (c : List UInt8) (off : Nat) (buf : List UInt8) (g : Nat) : List UInt8 :=
  let old := (c.drop off).take buf.length
  let c' := overwrite c off buf ++ zeros g
  overwrite (if old.length < buf.length then resize c' off else c') off old

def Lengthens (c : List UInt8) (off : Nat) (buf : List UInt8) : Prop :=
  buf ≠ [] ∧ c.length < off + buf.length

instance (c : List UInt8) (off : Nat) (buf : List UInt8) : Decidable (Lengthens c off buf) :=
  inferInstanceAs (Decidable (_ ∧ _))

/-- **One write.**  The undo action restores the bytes, except that there are zeros up to the offset
when this lies behind the end. -/
theorem undo_overwrite (c : List UInt8) (off : Nat) (buf : List UInt8) (g : Nat) :
    undoneWrite c off buf g
      = c ++ zeros (if Lengthens c off buf then off - c.length else g) := by
  unfold undoneWrite
  by_cases hb : buf = []
  · rw [if_neg (fun h => h.1 hb), hb]
    simp
  · by_cases hin : off + buf.length ≤ c.length
    · -- inside the file: as many bytes were saved as written
      rw [if_neg (fun h => absurd h.2 (by omega))]
      obtain ⟨A, B, D, rfl, rfl, hB⟩ : ∃ A B D, c = A ++ B ++ D ∧ A.length = off ∧
          B.length = buf.length := by
        refine ⟨c.take off, (c.drop off).take buf.length, (c.drop off).drop buf.length, ?_, ?_, ?_⟩
        · rw [List.append_assoc, List.take_append_drop, List.take_append_drop]
        · rw [List.length_take]
          omega
        · rw [List.length_take, List.length_drop]
          omega
      have hold : ((A ++ B ++ D).drop A.length).take buf.length = B := by
        rw [List.append_assoc, List.drop_left, ← hB, List.take_left]
      simp only [hold]
      rw [if_neg (by omega), overwrite_inside A B D hB, List.append_assoc (A ++ buf),
        overwrite_inside A buf (D ++ zeros g) hB.symm, List.append_assoc (A ++ B)]
    · rw [if_pos ⟨hb, by omega⟩]
      by_cases hoff : off ≤ c.length
      · -- over the end: the file is cut at the offset, and the saved bytes are its end
        obtain ⟨A, B, rfl, rfl⟩ : ∃ A B, c = A ++ B ∧ A.length = off :=
          ⟨c.take off, c.drop off, (List.take_append_drop _ _).symm, by
            rw [List.length_take]; omega⟩
        have hB : B.length < buf.length := by
          rw [List.length_append] at hin
          omega
        have hold : ((A ++ B).drop A.length).take buf.length = B := by
          rw [List.drop_left, List.take_of_length_le (Nat.le_of_lt hB)]
        simp only [hold]
        rw [if_pos hB, overwrite_end A B (Nat.le_of_lt hB), List.append_assoc A buf, resize_left,
          Nat.sub_eq_zero_of_le hoff]
        have hend := overwrite_end A [] (Nat.zero_le B.length)
        rw [List.append_nil] at hend
        rw [hend]
        exact (List.append_nil _).symm
      · -- behind the end: nothing was saved, and the file is cut at the offset
        have hold : (c.drop off).take buf.length = [] := by
          rw [List.drop_eq_nil_of_le (by omega), List.take_nil]
        have hlen : (c ++ zeros (off - c.length)).length = off := by
          rw [List.length_append, length_zeros]
          omega
        simp only [hold, List.length_nil]
        rw [if_pos (List.length_pos_of_ne_nil hb), overwrite_nil,
          overwrite_behind c (by omega) hb, List.append_assoc (c ++ _)]
        nth_rewrite 2 [← hlen]
        exact resize_left _ _

/-! ## offsets -/

section
variable {k k' : Kernel} {fd d x y : Nat}

theorem setOffset_self (k : Kernel) (d : Nat) :
    k.setOffset d (k.files d).offset (k.offset_le d) = k := by
  have h : Function.update k.files d (k.files d) = k.files := Function.update_eq_self _ _
  obtain ⟨mount, names, content, fds, files, next, hs, ho, hl⟩ := k
  simp only [Kernel.setOffset]
  congr

theorem setOffset_setOffset (k : Kernel) (hx : x ≤ offMax) (hy : y ≤ offMax) :
    (k.setOffset d x hx).setOffset d y hy = k.setOffset d y hy := by
  obtain ⟨mount, names, content, fds, files, next, hs, ho, hl⟩ := k
  simp only [Kernel.setOffset, Function.update_self, Function.update_idem]

theorem setOffset_offset (k : Kernel) (hx : x ≤ offMax) :
    ((k.setOffset d x hx).files d).offset = x := by
  simp only [Kernel.setOffset, Function.update_self]

theorem setContent_setContent (k : Kernel) (f : FileId) {c c' : List UInt8}
    (h : c.length ≤ offMax) (h' : c'.length ≤ offMax) :
    (k.setContent f c h).setContent f c' h' = k.setContent f c' h' := by
  simp only [Kernel.setContent, Function.update_idem]

theorem sysRead_ok {nbyte : Nat} {data : List UInt8}
    (h : sysRead k fd nbyte = (.ok data, k')) :
    ∃ d, k.fds fd = some d ∧ data = k.readAt (k.files d) nbyte ∧
      k' = k.setOffset d _ (k.readAt_le d nbyte) := by
  unfold sysRead at h
  split at h
  · cases h
  · split at h
    · cases h
    · cases h
      exact ⟨_, ‹_›, rfl, rfl⟩

theorem sysLseek_ok {offset pos : Int} {whence : Whence}
    (h : sysLseek k fd offset whence = (.ok pos, k')) :
    ∃ d x hx, k.fds fd = some d ∧ pos = (x : Nat) ∧ pos = k.base (k.files d) whence + offset ∧
      k' = k.setOffset d x hx := by
  unfold sysLseek at h
  split at h
  · cases h
  · simp only at h
    split at h
    · cases h
    · split at h
      · cases h
      · cases h
        exact ⟨_, _, _, ‹_›, by omega, rfl, rfl⟩

theorem sysLseek_eq {offset : Int} {whence : Whence} (hd : k.fds fd = some d)
    (hpos : k.base (k.files d) whence + offset = x) (hx : x ≤ offMax) :
    sysLseek k fd offset whence = (.ok (x : Int), k.setOffset d x hx) := by
  unfold sysLseek
  rw [hd]
  simp only [hpos]
  rw [if_neg (by omega), dif_neg (by omega)]
  rfl

theorem sysWrite_ok {buf : List UInt8} {ret : Nat} (h : sysWrite k fd buf = (.ok ret, k')) :
    ∃ d hc ho, k.fds fd = some d ∧ ret = buf.length ∧
      k' = (k.setContent (k.files d).file
        (overwrite (k.content (k.files d).file) (k.files d).offset buf) hc).setOffset d
          ((k.files d).offset + buf.length) ho := by
  unfold sysWrite at h
  split at h
  · cases h
  · simp only at h
    split at h
    · cases h
    · split at h
      · cases h
      · cases h
        exact ⟨_, _, _, ‹_›, rfl, rfl⟩

theorem sysFtruncate_eq {f : FileId} (hd : k.fds fd = some d) (hf : (k.files d).file = f)
    (hx : x ≤ offMax) :
    ∃ hc, sysFtruncate k fd x = (.ok (), k.setContent f (resize (k.content f) x) hc) := by
  subst hf
  refine ⟨by rw [length_resize]; exact hx, ?_⟩
  unfold sysFtruncate
  rw [hd]
  simp only
  rw [if_neg (by omega), dif_neg (by omega)]
  rfl

theorem sysPwrite_eq {f : FileId} {buf : List UInt8} (hd : k.fds fd = some d)
    (hf : (k.files d).file = f) (hx : x + buf.length ≤ offMax) :
    ∃ hc, sysPwrite k fd buf x
      = (.ok buf.length, k.setContent f (overwrite (k.content f) x buf) hc) := by
  subst hf
  refine ⟨length_overwrite_le (k.size_le _) hx, ?_⟩
  unfold sysPwrite
  rw [hd]
  simp only
  rw [dif_neg (by omega), dif_neg (by omega)]
  rfl

/-- `x_write_ovr_undo` where the offset is behind the write -/
theorem writeOvrUndoSys_eq {f : FileId} {len : Nat} (old : List UInt8) (hd : k.fds fd = some d)
    (hf : (k.files d).file = f) (ho : (k.files d).offset = x + len)
    (hx : x + old.length ≤ offMax) :
    ∃ hx' hc, writeOvrUndoSys fd (some old) len old.length k
      = (k.setOffset d x hx').setContent f
          (overwrite (if old.length < len then resize (k.content f) x else k.content f) x old) hc := by
  have hx' : x ≤ offMax := by omega
  have hseek : sysLseek k fd (-len) .seekCur = (.ok (x : Int), k.setOffset d x hx') := by
    refine sysLseek_eq hd ?_ hx'
    show ((k.files d).offset : Int) + -len = x
    rw [ho]
    omega
  have hfile : ((k.setOffset d x hx').files d).file = f := by
    simp only [Kernel.setOffset, Function.update_self]
    exact hf
  have htake : old.take ((old.length : Int).toNat) = old := List.take_length
  unfold writeOvrUndoSys
  rw [hseek]
  simp only [htake]
  by_cases hlt : old.length < len
  · obtain ⟨hc1, hcut⟩ := sysFtruncate_eq (k := k.setOffset d x hx') hd hfile hx'
    obtain ⟨hc2, hwr⟩ := sysPwrite_eq (k := (k.setOffset d x hx').setContent f _ hc1) hd hfile hx
    simp only [Int.ofNat_lt, hlt, if_true, hcut, hwr]
    refine ⟨hx', length_overwrite_le hc1 hx, ?_⟩
    rw [setContent_setContent]
    simp only [Kernel.setContent, Function.update_self]
    rfl
  · obtain ⟨hc2, hwr⟩ := sysPwrite_eq (k := k.setOffset d x hx') hd hfile hx
    simp only [Int.ofNat_lt, hlt, if_false, hwr]
    exact ⟨hx', hc2, rfl⟩

end

/-! ## one call -/

/-- the kernel `c` is `k` with zeros at the ends of the files -/
structure Padded (g : FileId → Nat) (k c : Kernel) : Prop where
  fds : c.fds = k.fds
  files : c.files = k.files
  content : ∀ f, c.content f = k.content f ++ zeros (g f)

theorem Padded.refl (k : Kernel) : Padded (fun _ => 0) k k :=
  ⟨rfl, rfl, fun _ => (List.append_nil _).symm⟩

theorem Padded.seek {g : FileId → Nat} {k c : Kernel} {d x : Nat} {hx : x ≤ offMax}
    (h : Padded g (k.setOffset d x hx) c) :
    Padded g k (c.setOffset d (k.files d).offset (k.offset_le d)) := by
  refine ⟨h.fds, ?_, h.content⟩
  show Function.update c.files d { c.files d with offset := (k.files d).offset } = k.files
  rw [h.files]
  show Function.update (Function.update k.files d _) d _ = k.files
  simp only [Kernel.setOffset, Function.update_self, Function.update_idem]
  exact Function.update_eq_self _ _

/-- the undo actions of a list lead from `k'` back to `k`; a file that became longer on the way ends
with the zeros that `γ` tells -/
def Reverts (l : List (XAction N × Int32)) (γ : FileId → Option Nat) (k k' : Kernel) : Prop :=
  ∀ (g : FileId → Nat) (c : Kernel), Padded g k' c →
    Padded (fun f => (γ f).getD (g f)) k (effects l.reverse c)

theorem Reverts.nil (k : Kernel) :
    Reverts ([] : List (XAction N × Int32)) (fun _ => none) k k := fun _ _ h => h

theorem Reverts.append {l l' : List (XAction N × Int32)} {γ γ' : FileId → Option Nat}
    {k k' k'' : Kernel} (h : Reverts l γ k k') (h' : Reverts l' γ' k' k'') :
    Reverts (l ++ l') (fun f => (γ f).or (γ' f)) k k'' := by
  intro g c hc
  rw [List.reverse_append, effects_append]
  have hback := h _ _ (h' g c hc)
  refine ⟨hback.fds, hback.files, fun f => ?_⟩
  rw [hback.content f]
  show _ = k.content f ++ zeros (((γ f).or (γ' f)).getD (g f))
  cases γ f <;> rfl

/-- the calls that save what they overwrite -/
def XCall.Saving : XCall → Prop
  | .read _ _ => True
  | .lseek _ _ _ => True
  | .write _ _ .ovrSave => True
  | _ => False

/-- the call is a write that makes the file longer: how far behind the end its offset is -/
def FileView.gap (v : FileView N) (f : FileId) : XCall → Option Nat
  | .write fd buf .ovrSave =>
    match v.kernel.openFile fd with
    | none => none
    | some o =>
      if v.carried fd buf.length = true ∧ o.file = f ∧ Lengthens (v.kernel.content f) o.offset buf
      then some (o.offset - (v.kernel.content f).length)
      else none
  | _ => none

theorem effects_one (a : XAction N) (o : Int32) (k : Kernel) :
    effects [(a, o)].reverse k = a.sys k := rfl

theorem reverts_seek {a : XAction N} {o : Int32} {k : Kernel} {d x : Nat} (hx : x ≤ offMax)
    (h : ∀ c : Kernel, c.fds = k.fds → c.files = (k.setOffset d x hx).files →
      a.sys c = c.setOffset d (k.files d).offset (k.offset_le d)) :
    Reverts [(a, o)] (fun _ => none) k (k.setOffset d x hx) := by
  intro g c hc
  rw [effects_one, h c hc.fds hc.files]
  exact hc.seek

/-- the seek over the bytes that were read: the kernel is as it was before -/
theorem read_back {k k₁ k₂ : Kernel} {fd nbyte : Nat} {old : List UInt8}
    (hr : sysRead k fd nbyte = (.ok old, k₁))
    (hb : if old.length = 0 then k₂ = k₁
      else ∃ pos, sysLseek k₁ fd (-old.length) .seekCur = (.ok pos, k₂)) : k₂ = k := by
  obtain ⟨d, hd, rfl, rfl⟩ := sysRead_ok hr
  split at hb
  · rename_i h0
    rw [hb]
    simp only [h0, Nat.add_zero]
    exact setOffset_self k d
  · obtain ⟨pos, hs⟩ := hb
    obtain ⟨d', x, hx, hd', hpos, hbase, rfl⟩ := sysLseek_ok hs
    obtain rfl : d = d' := Option.some.inj (hd.symm.trans hd')
    have hx' : x = (k.files d).offset := by
      simp only [Kernel.base, setOffset_offset] at hbase
      omega
    subst hx'
    rw [setOffset_setOffset]
    exact setOffset_self k d

/-- `x_write_ovr_save` behind its allocations: the kernel before and after -/
theorem writeSave_kernel {k k₁ k₂ k' : Kernel} {fd ret : Nat} {buf old : List UInt8}
    (hr : sysRead k fd buf.length = (.ok old, k₁))
    (hb : if old.length = 0 then k₂ = k₁
      else ∃ pos, sysLseek k₁ fd (-old.length) .seekCur = (.ok pos, k₂))
    (hw : sysWrite k₂ fd buf = (.ok ret, k')) :
    ∃ d hc ho, k.fds fd = some d ∧ old = k.readAt (k.files d) buf.length ∧ ret = buf.length ∧
      k' = (k.setContent (k.files d).file
        (overwrite (k.content (k.files d).file) (k.files d).offset buf) hc).setOffset d
          ((k.files d).offset + buf.length) ho := by
  obtain rfl : k₂ = k := read_back hr hb
  obtain ⟨d, hd, hold, -⟩ := sysRead_ok hr
  obtain ⟨d', hc, ho, hd', hret, rfl⟩ := sysWrite_ok hw
  obtain rfl : d = d' := Option.some.inj (hd.symm.trans hd')
  exact ⟨d, hc, ho, hd, hold, hret, rfl⟩

theorem reverts_write {k : Kernel} {fd d : Nat} {buf old : List UInt8} {γ : FileId → Option Nat}
    {o : Int32} (hc : _) (ho : _) (hd : k.fds fd = some d)
    (hold : old = k.readAt (k.files d) buf.length)
    (hγ : ∀ f, γ f = if (k.files d).file = f ∧ Lengthens (k.content f) (k.files d).offset buf
      then some ((k.files d).offset - (k.content f).length) else none) :
    Reverts [((.writeOvrUndo fd (some old) buf.length old.length : XAction N), o)] γ k
      ((k.setContent (k.files d).file
        (overwrite (k.content (k.files d).file) (k.files d).offset buf) hc).setOffset d
          ((k.files d).offset + buf.length) ho) := by
  intro g c hcp
  have hfiles : (c.files d).file = (k.files d).file ∧
      (c.files d).offset = (k.files d).offset + buf.length := by
    rw [hcp.files]
    simp only [Kernel.setOffset, Kernel.setContent, Function.update_self]
    exact ⟨trivial, trivial⟩
  have hback := hcp.seek
  obtain ⟨hx', hc', heq⟩ := writeOvrUndoSys_eq old (hcp.fds.symm ▸ hd : c.fds fd = some d)
    hfiles.1 hfiles.2 (hold ▸ k.readAt_le d buf.length)
  rw [effects_one]
  show Padded _ k (writeOvrUndoSys fd (some old) buf.length old.length c)
  rw [heq]
  refine ⟨hcp.fds, hback.files, fun f => ?_⟩
  show Function.update c.content (k.files d).file _ f = _
  by_cases hf : (k.files d).file = f
  · subst hf
    have hcont : c.content (k.files d).file = overwrite (k.content (k.files d).file)
        (k.files d).offset buf ++ zeros (g (k.files d).file) := by
      rw [hcp.content]
      simp only [Kernel.setOffset, Kernel.setContent, Function.update_self]
    have hun := undo_overwrite (k.content (k.files d).file) (k.files d).offset buf
      (g (k.files d).file)
    rw [Function.update_self, hcont, hold, hγ]
    refine hun.trans ?_
    by_cases hl : Lengthens (k.content (k.files d).file) (k.files d).offset buf
    · rw [if_pos hl, if_pos ⟨rfl, hl⟩]
      rfl
    · rw [if_neg hl, if_neg fun h => hl h.2]
      rfl
  · rw [Function.update_of_ne (Ne.symm hf), hγ, if_neg fun h => hf h.1, hcp.content]
    show Function.update k.content (k.files d).file _ f ++ _ = _
    rw [Function.update_of_ne (Ne.symm hf)]
    rfl

/-- **One call** can be undone up to its gap. -/
theorem reverts_step {v : FileView N} {c : XCall} {w : View N} (h : FileStep v c w)
    (hc : c.Saving) :
    ∃ l, w.undos = v.undos ++ l ∧ (∀ x ∈ l, x.2 = 0 ∧ x.1.KernelOnly) ∧
      Reverts l (fun f => v.gap f c) v.kernel w.kernel := by
  have hone : ∀ {a : XAction N}, a.KernelOnly → ∀ x ∈ [(a, regularActionOrder)],
      x.2 = 0 ∧ x.1.KernelOnly := by
    intro a ha x hx
    rw [List.mem_singleton.mp hx]
    exact ⟨rfl, ha⟩
  cases h with
  | refused hno =>
    refine ⟨[], (List.append_nil _).symm, by simp, ?_⟩
    have hgap : (fun f => v.gap f c) = fun _ => none := by
      funext f
      unfold FileView.gap
      split
      · split
        · rfl
        · rw [hno _ _ rfl, if_neg (by simp)]
      · rfl
    rw [hgap]
    exact Reverts.nil _
  | @read fd nbyte data k' hr =>
    refine ⟨_, rfl, hone fun _ _ h => (by cases h), ?_⟩
    obtain ⟨d, hd, rfl, rfl⟩ := sysRead_ok hr
    refine reverts_seek (v.kernel.readAt_le d nbyte) fun c hfds hfiles => ?_
    have hpos : (c.base (c.files d) .seekCur : Int) + -(v.kernel.readAt (v.kernel.files d)
        nbyte).length = (v.kernel.files d).offset := by
      rw [hfiles]
      simp only [Kernel.base, setOffset_offset]
      omega
    simp only [XAction.sys, sysLseek_eq (hfds.symm ▸ hd : c.fds fd = some d) hpos
      (v.kernel.offset_le d)]
  | @seekCur fd offset ret k' hs =>
    refine ⟨_, rfl, hone fun _ _ h => (by cases h), ?_⟩
    obtain ⟨d, x, hx, hd, hret, hbase, rfl⟩ := sysLseek_ok hs
    refine reverts_seek hx fun c hfds hfiles => ?_
    have hpos : (c.base (c.files d) .seekSet : Int) + (ret - offset)
        = (v.kernel.files d).offset := by
      simp only [Kernel.base] at hbase ⊢
      omega
    simp only [XAction.sys, sysLseek_eq (hfds.symm ▸ hd : c.fds fd = some d) hpos
      (v.kernel.offset_le d)]
  | @seekTo fd offset old ret whence k₁ k' ho hs =>
    refine ⟨_, rfl, hone fun _ _ h => (by cases h), ?_⟩
    obtain ⟨d, x, hx, hd, hold, hbase, rfl⟩ := sysLseek_ok ho
    obtain ⟨d', y, hy, hd', hret, -, rfl⟩ := sysLseek_ok hs
    obtain rfl : d = d' := Option.some.inj (hd.symm.trans hd')
    rw [setOffset_setOffset]
    refine reverts_seek hy fun c hfds hfiles => ?_
    have hpos : (c.base (c.files d) .seekSet : Int) + old = (v.kernel.files d).offset := by
      simp only [Kernel.base] at hbase ⊢
      omega
    simp only [XAction.sys, sysLseek_eq (hfds.symm ▸ hd : c.fds fd = some d) hpos
      (v.kernel.offset_le d)]
  | writeSeq => exact hc.elim
  | writeIgnore => exact hc.elim
  | @writeSave fd ret buf old k₁ k₂ k' hcar hr hb hw =>
    obtain ⟨d, hlen, ho, hd, hold, rfl, rfl⟩ := writeSave_kernel hr hb hw
    refine ⟨_, rfl, hone fun _ _ h => (by cases h), reverts_write hlen ho hd hold fun f => ?_⟩
    simp only [FileView.gap, Kernel.openFile, hd, Option.map_some, hcar, true_and]

/-! ## sequences of calls -/

/-- the gap of the first call of the run that makes the file longer -/
def firstGap (f : FileId) : List Request → XMach T n N → Option Nat
  | [], _ => none
  | c :: cs, m =>
    match run handleOk (c.call.prog c.result) (withAnswers m c.answers) with
    | some (.ok _, m') => ((fileView m).gap f c.call).or (firstGap f cs m')
    | _ => none

theorem FileStep.xactstate {v : FileView N} {c : XCall} {w : View N} (h : FileStep v c w) :
    w.xactstate = v.xactstate := by
  cases h <;> rfl

theorem XCall.Saving.onContents {c : XCall} (h : c.Saving) : c.OnContents := by
  cases c with
  | read | lseek | write => trivial
  | _ => exact h.elim

/-- **Every sequence of calls** can be undone up to the first gaps. -/
theorem xRun_reverts {cs : List Request} (hc : ∀ c ∈ cs, c.call.Saving) :
    ∀ {m m' : XMach T n N} {out : Option AbortReason}, xRun handleOk cs m = some (out, m') →
      m.world.xactstate = .retryable →
      ∃ l, (view m').undos = (view m).undos ++ l ∧ (∀ x ∈ l, x.2 = 0 ∧ x.1.KernelOnly) ∧
        Reverts l (fun f => firstGap f cs m) m.world.kernel m'.world.kernel := by
  induction cs with
  | nil =>
    intro m m' out h _
    cases h
    exact ⟨[], (List.append_nil _).symm, by simp, Reverts.nil _⟩
  | cons c cs ih =>
    intro m m' out h hx
    have hcall := hc c List.mem_cons_self
    have hpost : ∀ {r : Except Stop Int} {m1 : XMach T n N},
        run handleOk (c.call.prog c.result) (withAnswers m c.answers) = some (r, m1) →
        FilePost (fileView (withAnswers m c.answers)) c.call r (fileView m1) := fun h1 =>
      run_fileView (file_view hcall.onContents c.result _ hx) h1
    unfold xRun at h
    split at h
    · cases h
    · rename_i r m1 h1
      have hstep : FileStep (fileView (withAnswers m c.answers)) c.call (fileView m1).toView :=
        hpost h1
      obtain ⟨l, hl, hreg, hrev⟩ := reverts_step hstep hcall
      obtain ⟨l', hl', hreg', hrev'⟩ := ih (fun d hd => hc d (List.mem_cons_of_mem _ hd)) h
        (hstep.xactstate.trans hx)
      have hl : (view m1).undos = (view m).undos ++ l := hl
      refine ⟨l ++ l', by rw [hl', hl, List.append_assoc], fun x hx => ?_, ?_⟩
      · rcases List.mem_append.mp hx with hx | hx
        · exact hreg x hx
        · exact hreg' x hx
      · simp only [firstGap, h1]
        exact hrev.append hrev'
    · rename_i reason m1 h1
      cases h
      have hsame : (fileView m').toView = (fileView (withAnswers m c.answers)).toView := hpost h1
      have hk : m'.world.kernel = m.world.kernel := congrArg View.kernel hsame
      refine ⟨[], ?_, by simp, ?_⟩
      · have hu : (view m').undos = (view (withAnswers m c.answers)).undos :=
          congrArg View.undos hsame
        rw [hu, List.append_nil]
        rfl
      · simp only [firstGap, h1, hk]
        exact Reverts.nil _
    · cases h

/-- **Abort and the contents of files.**  Whatever calls of `x_read`, `x_lseek` and `x_write_ovr` a
retryable transaction makes, until it is aborted for any reason: the generic undo action returns,
and a file has its old contents if and only if the first write that made it longer did not start
behind its end. -/
theorem abort_restores_contents (m : XMach T n N) (cs : List Request)
    (hc : ∀ c ∈ cs, c.call.Saving) (out : Option AbortReason) (m' : XMach T n N)
    (hrun : xRun handleOk cs (xBegin m) = some (out, m')) (reason : AbortReason) :
    ∃ fuel₀ o, (∀ fuel ≥ fuel₀, txGenericUndoAction exec fuel (xAbort m' reason) = some o) ∧
      ∀ f, o.mach.world.kernel.content f = m.world.kernel.content f ↔
        ∀ gap, firstGap f cs (xBegin m) = some gap → gap = 0 := by
  obtain ⟨l, hl, hreg, hrev⟩ := xRun_reverts hc hrun rfl
  obtain ⟨fuel₀, o, hfuel, hk⟩ := abort_kernel handles_handleOk hrun hl hreg reason
  refine ⟨fuel₀, o, hfuel, fun f => ?_⟩
  have hcont := (hrev _ _ (Padded.refl _)).content f
  rw [hk, hcont]
  show m.world.kernel.content f ++ zeros ((firstGap f cs (xBegin m)).getD 0) = _ ↔ _
  rw [List.append_right_eq_self, ← List.length_eq_zero_iff, length_zeros]
  cases firstGap f cs (xBegin m) with
  | none => simp
  | some gap => simp

/-! ## a small file -/

def readWrite : OpenFlags := ⟨false, false, false⟩

/-- the descriptor 3 is opened on `a`, a file of three bytes, outside a transaction -/
def openedMach : XMach Unit 8 8 :=
  ((xRun handleOk [⟨.open "a" readWrite, none, smallAnswers⟩] (smallMach smallKernel)).map
    Prod.snd).getD (smallMach smallKernel)

/-- the last byte and one behind it are overwritten, and then the first byte -/
def straddle : List Request :=
  [⟨.lseek 3 2 .seekSet, none, smallAnswers⟩, ⟨.write 3 [8, 9] .ovrSave, none, smallAnswers⟩,
    ⟨.lseek 3 0 .seekSet, none, smallAnswers⟩, ⟨.write 3 [7] .ovrSave, none, smallAnswers⟩]

theorem abort_restores_contents_straddle :
    ∃ out m', xRun handleOk straddle (xBegin openedMach) = some (out, m') ∧
      m'.world.kernel.content ⟨1, 1, by decide⟩ = [7, 2, 8, 9] ∧
      firstGap ⟨1, 1, by decide⟩ straddle (xBegin openedMach) = some 0 ∧
      ∃ fuel₀ o, (∀ fuel ≥ fuel₀, txGenericUndoAction exec fuel (xAbort m' .userabort) = some o) ∧
        ∀ f, o.mach.world.kernel.content f = openedMach.world.kernel.content f ↔
          ∀ gap, firstGap f straddle (xBegin openedMach) = some gap → gap = 0 := by
  have hrun : ((xRun handleOk straddle (xBegin openedMach)).map
      fun r => r.2.world.kernel.content ⟨1, 1, by decide⟩) = some [7, 2, 8, 9] := by decide +kernel
  obtain ⟨⟨out, m'⟩, h, hb⟩ := Option.map_eq_some_iff.mp hrun
  refine ⟨out, m', h, hb, by decide +kernel,
    abort_restores_contents openedMach straddle ?_ out m' h _⟩
  intro c hc
  simp only [straddle, List.mem_cons, List.not_mem_nil, or_false] at hc
  rcases hc with rfl | rfl | rfl | rfl <;> trivial

/-- one byte is written two bytes behind the end -/
def writeBehind : List Request :=
  [⟨.lseek 3 5 .seekSet, none, smallAnswers⟩, ⟨.write 3 [9] .ovrSave, none, smallAnswers⟩]

theorem abort_leaves_zeros :
    openedMach.world.kernel.content ⟨1, 1, by decide⟩ = [1, 2, 3] ∧
      ((xRun handleOk writeBehind (xBegin openedMach)).bind fun r =>
        (txGenericUndoAction exec 100 (xAbort r.2 .userabort)).map fun o =>
          o.mach.world.kernel.content ⟨1, 1, by decide⟩) = some [1, 2, 3, 0, 0] := by
  decide +kernel

end XCalls
