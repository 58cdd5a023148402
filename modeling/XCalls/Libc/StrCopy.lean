import XCalls.Lib.Space
import XCalls.Lib.While

/-!
# `txc_libc_strcpy`, `txc_libc_strcat`, `txc_libc_strncpy`, `txc_libc_strncat`

`string.c`: the loops copy four characters in a pass as long as four are left, and then the rest.
The pointer to the target is one behind, so that it is incremented before a character is stored.

* `CopyRegs`      the registers of the copying loops, with the memory;
* `Copies`        what is copied: `t` to `d`, from a field of `n` bytes that holds `l`;
* `CopiedTo`        `k` characters have been copied;
* `strncpy_eq`, `strncat_eq`, `strcpy_eq`, `strcat_eq`   the memory afterwards: exactly the bytes of
                  the target are written, and nothing behind the NUL or the field is read.
-/

namespace XCalls
open While Space
open Memory (Apart)

/-! ## the functions -/

structure CopyRegs where
  mem : Space
  s1 : Nat
  s2 : Nat
  c : UInt8

/-- `c = *s2++; *++s1 = c;` -/
def CopyRegs.copy {α : Type} (r : CopyRegs) : Except (Stop α) CopyRegs := do
  let c ← access (r.mem r.s2)
  let mem ← access (put r.mem (r.s1 + 1) c)
  return ⟨mem, r.s1 + 1, r.s2 + 1, c⟩

/-- `c = *s2++; *++s1 = c;`, and `if (c == '\0')` the loop is left -/
def copyChar {α : Type} (stop : CopyRegs → α) (r : CopyRegs) : Except (Stop α) CopyRegs := do
  let r ← r.copy
  if r.c = 0 then throw (.value (stop r)) else return r

inductive CopyExit where
  | nul (r : CopyRegs)
  | rest (r : CopyRegs)

/-- the loop `zero_fill`, on the memory, `s1` and `n` -/
def zeroPass (x : Space × Nat × Nat) : Except (Stop Space) (Space × Nat × Nat) := do
  let mem ← access (put x.1 (x.2.1 + 1) 0)
  if x.2.2 - 1 = 0 then throw (.value mem) else return (mem, x.2.1 + 1, x.2.2 - 1)

inductive LastExit where
  | ret (mem : Space)
  | zeroFill (r : CopyRegs) (n : Nat)

/-- the loop `last_chars` -/
def lastPass (x : CopyRegs × Nat) : Except (Stop LastExit) (CopyRegs × Nat) := do
  let r ← x.1.copy
  if x.2 - 1 = 0 then throw (.value (.ret r.mem))
  else if r.c = 0 then throw (.value (.zeroFill r (x.2 - 1)))
  else return (r, x.2 - 1)

def zeroFill (fuel : Nat) (r : CopyRegs) (n : Nat) : Option Space :=
  forever zeroPass fuel (r.mem, r.s1, n)

def lastChars (fuel : Nat) (r : CopyRegs) (n : Nat) : Option Space :=
  if n &&& 3 = 0 then some r.mem
  else do
    match ← forever lastPass fuel (r, n &&& 3) with
    | .ret mem => return mem
    | .zeroFill r n => zeroFill fuel r n

/-- `txc_libc_strncpy`: the memory afterwards; `s1` is returned -/
def strncpy (fuel : Nat) (mem : Space) (s1 s2 n : Nat) : Option Space :=
  let r : CopyRegs := ⟨mem, s1 - 1, s2, 0⟩
  if n ≥ 4 then do
    match ← forever (unrolled (copyChar CopyExit.nul) .rest) fuel (r, n >>> 2) with
    | .rest r => lastChars fuel r n
    | .nul r =>
      if n - (r.s1 - s1) - 1 = 0 then return r.mem
      else zeroFill fuel r (n - (r.s1 - s1) - 1)
  else lastChars fuel r n

/-- `do c = *s1++; while (c != '\0');` -/
def endPass (mem : Space) (s1 : Nat) : Except (Stop Nat) Nat := do
  let c ← access (mem s1)
  if c = 0 then throw (.value (s1 + 1)) else return s1 + 1

/-- `txc_libc_strncat` behind its unrolled loop -/
def catRest (fuel : Nat) (r : CopyRegs) (n : Nat) : Option Space := do
  match ← forever (counted (copyChar CopyExit.nul) .rest) fuel (r, n) with
  | .nul r => return r.mem
  | .rest r => if r.c ≠ 0 then put r.mem (r.s1 + 1) 0 else return r.mem

/-- `txc_libc_strncat`: the memory afterwards; `s1` is returned -/
def strncat (fuel : Nat) (mem : Space) (s1 s2 n : Nat) : Option Space := do
  let e ← forever (endPass mem) fuel s1
  let r : CopyRegs := ⟨mem, e - 2, s2, 0⟩
  if n ≥ 4 then do
    match ← forever (unrolled (copyChar CopyExit.nul) .rest) fuel (r, n >>> 2) with
    | .nul r => return r.mem
    | .rest r => catRest fuel r (n &&& 3)
  else catRest fuel r n

/-- the loop of `txc_libc_strcpy`, on the memory, `p` and `q` -/
def strcpyPass (x : Space × Nat × Nat) : Except (Stop (Space × Nat)) (Space × Nat × Nat) := do
  let c ← access (x.1 x.2.1)
  if c = 0 then throw (.value (x.1, x.2.2))
  else do
    let mem ← access (put x.1 x.2.2 c)
    return (mem, x.2.1 + 1, x.2.2 + 1)

/-- `txc_libc_strcpy`: the memory afterwards; `dest` is returned -/
def strcpy (fuel : Nat) (mem : Space) (dest src : Nat) : Option Space := do
  let r ← forever strcpyPass fuel (mem, src, dest)
  put r.1 r.2 0

/-- `txc_libc_strcat`: the memory afterwards; `dest` is returned -/
def strcat (fuel : Nat) (mem : Space) (dest src : Nat) : Option Space := do
  let e ← forever (endPass mem) fuel dest
  forever (copyChar CopyRegs.mem) fuel ⟨mem, e - 2, src, 0⟩

/-! ## copying -/

section
variable {μ : Space} {d s2 n k fuel : Nat} {l t : List UInt8} {r : CopyRegs} {α : Type}

/-- `t` is to be written to `d`, from the field of `n` bytes at `s2` that holds `l`; the two do not
overlap -/
structure Copies (μ : Space) (d s2 n : Nat) (l t : List UInt8) : Prop where
  pos : 0 < d
  dest : Mapped μ d t.length
  field : FieldAt μ s2 n l
  apart : Apart d t.length s2 (min n (l.length + 1))
  same : ∀ k ≤ l.length, k < n → t[k]? = μ (s2 + k)

structure CopiedTo (μ : Space) (d s2 : Nat) (t : List UInt8) (k : Nat) (r : CopyRegs) : Prop where
  mem : r.mem = write μ d (t.take k)
  s1 : r.s1 + 1 = d + k
  s2 : r.s2 = s2 + k

theorem copy_runs (A : Copies μ d s2 n l t) (h : CopiedTo μ d s2 t k r) (hk : k ≤ l.length)
    (hn : k < n) {R : α → Prop} :
    Runs (r.copy) (fun r' => CopiedTo μ d s2 t (k + 1) r' ∧ (r'.c = 0 ↔ k = l.length)) R := by
  obtain ⟨c, hc, hz⟩ := FieldAt.get A.field hk hn
  have ht : t[k]? = some c := (A.same k hk hn).trans hc
  have hlen : k < t.length := (List.getElem?_eq_some_iff.mp ht).1
  have hread : r.mem r.s2 = some c := by
    have hap : Apart d (t.take k).length s2 (min n (l.length + 1)) := by
      have hap := A.apart
      rw [List.length_take]
      unfold Apart at hap ⊢
      omega
    rw [h.mem, h.s2, write_of_apart hap (by omega), hc]
  have hput : put r.mem (r.s1 + 1) c = some (write μ d (t.take (k + 1))) := by
    rw [h.mem, h.s1, put_take A.dest ht]
  apply Runs.bind (Runs.access hread rfl)
  intro c' hc'
  subst hc'
  apply Runs.bind (Runs.access hput rfl)
  intro m hm
  subst hm
  exact Runs.ok ⟨⟨rfl, by rw [h.s1]; rfl, by rw [h.s2]; rfl⟩, hz⟩

def CopiedNul (μ : Space) (d s2 n : Nat) (l t : List UInt8) (stop : CopyRegs → α) (a : α) : Prop :=
  ∃ r, a = stop r ∧ CopiedTo μ d s2 t (l.length + 1) r ∧ l.length < n

/-- `k` characters have been copied, and none of them is the NUL; `c` is the last one -/
structure CopiedChars (μ : Space) (d s2 : Nat) (l t : List UInt8) (k : Nat) (r : CopyRegs) :
    Prop where
  copied : CopiedTo μ d s2 t k r
  le : k ≤ l.length
  c : r.c ≠ 0 ∨ k = 0

theorem copyChar_runs {stop : CopyRegs → α} (A : Copies μ d s2 n l t) :
    ∀ k r, k < n → CopiedChars μ d s2 l t k r → Runs (copyChar stop r)
      (CopiedChars μ d s2 l t (k + 1)) (CopiedNul μ d s2 n l t stop) := by
  intro k r hn h
  apply Runs.bind (copy_runs A h.copied h.le hn)
  intro r' ⟨h', hz⟩
  by_cases hc : r'.c = 0
  · rw [if_pos hc]
    have he := hz.mp hc
    subst he
    exact Runs.value ⟨r', rfl, h', hn⟩
  · rw [if_neg hc]
    have hne : k ≠ l.length := fun he => hc (hz.mpr he)
    have hle := h.le
    exact Runs.ok ⟨h', by omega, Or.inl hc⟩

theorem copied_zero {c : UInt8} (h0 : 0 < d) : CopiedTo μ d s2 t 0 ⟨μ, d - 1, s2, c⟩ :=
  ⟨write_nil.symm, Nat.sub_add_cancel h0, rfl⟩

end

/-! ## `strncpy` -/

section
variable {μ : Space} {s1 s2 n k fuel : Nat} {l : List UInt8} {r : CopyRegs}

/-- `n` bytes with the string `l` and zeros behind it -/
def padded (n : Nat) (l : List UInt8) : List UInt8 := l ++ List.replicate (n - l.length) 0

theorem length_padded (h : l.length ≤ n) : (padded n l).length = n := by
  rw [padded, List.length_append, List.length_replicate, Nat.add_sub_cancel' h]

theorem padded_zero (hk : l.length ≤ k) (hn : k < n) : (padded n l)[k]? = some 0 := by
  rw [padded, List.getElem?_append_right hk, List.getElem?_replicate, if_pos (by omega)]

theorem copies_padded (h0 : 0 < s1) (hd : Mapped μ s1 n) (hf : FieldAt μ s2 n l)
    (ha : Apart s1 n s2 (min n (l.length + 1))) : Copies μ s1 s2 n l (padded n l) := by
  have hlen := length_padded hf.le
  refine ⟨h0, by rw [hlen]; exact hd, hf, by rw [hlen]; exact ha, fun k hk hn => ?_⟩
  rcases Nat.lt_or_eq_of_le hk with hlt | rfl
  · rw [padded, List.getElem?_append_left hlt, hf.holds k hlt]
  · rw [padded_zero (Nat.le_refl _) hn]
    rcases hf.ends with he | ⟨-, hz⟩
    · exact absurd he (Nat.ne_of_lt hn)
    · exact hz.symm

theorem take_padded (h : l.length ≤ n) : (padded n l).take n = padded n l :=
  List.take_of_length_le (Nat.le_of_eq (length_padded h))

theorem zeroFill_yields (A : Copies μ s1 s2 n l (padded n l))
    (h : CopiedTo μ s1 s2 (padded n l) k r) (hk : l.length ≤ k) (hn : k < n) (hfuel : n < fuel) :
    Yields (zeroFill fuel r (n - k)) fun m => m = write μ s1 (padded n l) := by
  have hle := A.field.le
  apply forever_yields (fun x => ∃ k, x.1 = write μ s1 ((padded n l).take k) ∧
    x.2.1 + 1 = s1 + k ∧ x.2.2 = n - k ∧ l.length ≤ k ∧ k < n) (fun x => x.2.2)
  · intro ⟨m, p, j⟩ ⟨k, hm, hp, hj, hk, hn⟩
    replace hm : m = write μ s1 ((padded n l).take k) := hm
    replace hp : p + 1 = s1 + k := hp
    replace hj : j = n - k := hj
    have hput : put m (p + 1) 0 = some (write μ s1 ((padded n l).take (k + 1))) := by
      rw [hm, hp, put_take A.dest (padded_zero hk hn)]
    apply Runs.bind (Runs.access hput rfl)
    intro m' hm'
    subst hm'
    by_cases h0 : j - 1 = 0
    · rw [if_pos h0]
      apply Runs.value
      have he : k + 1 = n := by omega
      rw [he, take_padded hle]
    · rw [if_neg h0]
      refine Runs.ok ⟨⟨k + 1, rfl, ?_, ?_, ?_, ?_⟩, ?_⟩
      · show p + 1 + 1 = s1 + (k + 1)
        omega
      · show j - 1 = n - (k + 1)
        omega
      · omega
      · omega
      · show j - 1 < j
        omega
  · exact ⟨k, h.mem, h.s1, rfl, hk, hn⟩
  · show n - k < fuel
    omega

/-- where the loop `last_chars` ends: all is copied, or the NUL is and some zeros are missing -/
def LastPost (μ : Space) (s1 s2 n : Nat) (l : List UInt8) : LastExit → Prop
  | .ret m => m = write μ s1 (padded n l)
  | .zeroFill r j =>
    CopiedTo μ s1 s2 (padded n l) (l.length + 1) r ∧ j = n - (l.length + 1) ∧ l.length + 1 < n

theorem lastPass_runs (A : Copies μ s1 s2 n l (padded n l))
    (h : CopiedTo μ s1 s2 (padded n l) k r) (hk : k ≤ l.length) (hn : k < n) :
    Runs (lastPass (r, n - k))
      (fun x => CopiedTo μ s1 s2 (padded n l) (k + 1) x.1 ∧ k + 1 ≤ l.length ∧ k + 1 < n ∧
        x.2 = n - (k + 1)) (LastPost μ s1 s2 n l) := by
  apply Runs.bind (copy_runs A h hk hn)
  intro r' ⟨h', hz⟩
  by_cases h0 : n - k - 1 = 0
  · rw [if_pos h0]
    apply Runs.value
    have he : k + 1 = n := by omega
    show r'.mem = _
    rw [h'.mem, he, take_padded A.field.le]
  · rw [if_neg h0]
    by_cases hc : r'.c = 0
    · rw [if_pos hc]
      have he := hz.mp hc
      subst he
      exact Runs.value ⟨h', Nat.sub_sub _ _ _, by omega⟩
    · rw [if_neg hc]
      have hne : k ≠ l.length := fun he => hc (hz.mpr he)
      exact Runs.ok ⟨h', by omega, by omega, Nat.sub_sub _ _ _⟩

theorem lastChars_yields (A : Copies μ s1 s2 n l (padded n l))
    (h : CopiedTo μ s1 s2 (padded n l) (n - n % 4) r) (hk : n - n % 4 ≤ l.length)
    (hfuel : n < fuel) :
    Yields (lastChars fuel r n) fun m => m = write μ s1 (padded n l) := by
  have hle := A.field.le
  unfold lastChars
  rw [and_three]
  by_cases h0 : n % 4 = 0
  · rw [if_pos h0]
    apply Yields.some
    rw [h.mem, h0, Nat.sub_zero, take_padded hle]
  · rw [if_neg h0]
    apply Yields.bind (R := LastPost μ s1 s2 n l)
    · apply forever_yields (fun x => ∃ k, CopiedTo μ s1 s2 (padded n l) k x.1 ∧ k ≤ l.length ∧
        k < n ∧ x.2 = n - k) (fun x => x.2)
      · intro ⟨r, j⟩ ⟨k, h, hk, hn, hj⟩
        replace hj : j = n - k := hj
        subst hj
        apply (lastPass_runs A h hk hn).mono
        · intro x ⟨h', hk', hn', hx⟩
          refine ⟨⟨k + 1, h', hk', hn', hx⟩, ?_⟩
          rw [hx]
          show n - (k + 1) < n - k
          omega
        · exact fun a ha => ha
      · exact ⟨n - n % 4, h, hk, by omega, by show n % 4 = n - (n - n % 4); omega⟩
      · show n % 4 < fuel
        omega
    · intro a ha
      cases a with
      | ret m => exact Yields.some ha
      | zeroFill r j =>
        obtain ⟨h', rfl, hlt⟩ := ha
        exact zeroFill_yields A h' (Nat.le_succ _) hlt hfuel

/-- **`strncpy`** writes the `n` bytes at `s1`, and no others: the string, cut at `n` bytes, and
zeros behind it -/
theorem strncpy_eq (h0 : 0 < s1) (hd : Mapped μ s1 n) (hf : FieldAt μ s2 n l)
    (ha : Apart s1 n s2 (min n (l.length + 1))) (hfuel : n < fuel) :
    strncpy fuel μ s1 s2 n = some (write μ s1 (padded n l)) := by
  have A := copies_padded h0 hd hf ha
  have hle := hf.le
  apply Yields.eq
  unfold strncpy
  by_cases h4 : n ≥ 4
  · rw [if_pos h4]
    apply Yields.bind (unrolled_yields (copyChar_runs A)
      ⟨copied_zero h0, Nat.zero_le _, Or.inr rfl⟩ h4 hfuel)
    intro a ha
    rcases ha with ⟨r, rfl, h, hlt⟩ | ⟨r, rfl, h⟩
    · have hs1 := h.s1
      have hleft : n - (r.s1 - s1) - 1 = n - (l.length + 1) := by omega
      show Yields (if n - (r.s1 - s1) - 1 = 0 then some r.mem else
        zeroFill fuel r (n - (r.s1 - s1) - 1)) _
      rw [hleft]
      by_cases hend : n - (l.length + 1) = 0
      · rw [if_pos hend]
        apply Yields.some
        have he : l.length + 1 = n := by omega
        rw [h.mem, he, take_padded hle]
      · rw [if_neg hend]
        exact zeroFill_yields A h (Nat.le_succ _) (by omega) hfuel
    · exact lastChars_yields A h.copied h.le hfuel
  · rw [if_neg h4]
    have hz : n - n % 4 = 0 := by omega
    apply lastChars_yields A _ _ hfuel
    · rw [hz]
      exact copied_zero h0
    · rw [hz]
      exact Nat.zero_le _

end

/-! ## `strncat` and `strcat` -/

section
variable {μ : Space} {s1 s2 n k fuel : Nat} {a l : List UInt8} {r : CopyRegs}

theorem end_yields (ha : StrAt μ s1 a) (hfuel : a.length + 1 < fuel) :
    Yields (forever (endPass μ) fuel s1) fun e => e = s1 + a.length + 1 := by
  apply forever_yields (fun p => ∃ k, p = s1 + k ∧ k ≤ a.length) (fun p => s1 + a.length + 1 - p)
  · intro p ⟨k, hp, hk⟩
    subst hp
    obtain ⟨c, hc, hz⟩ := FieldAt.get (StrAt.field ha) hk (Nat.lt_succ_of_le hk)
    apply Runs.bind (Runs.access hc rfl)
    intro c' hc'
    subst hc'
    by_cases h0 : c = 0
    · rw [if_pos h0, hz.mp h0]
      exact Runs.value rfl
    · rw [if_neg h0]
      have hne : k ≠ a.length := fun he => h0 (hz.mpr he)
      exact Runs.ok ⟨⟨k + 1, rfl, by omega⟩, by omega⟩
  · exact ⟨0, rfl, Nat.zero_le _⟩
  · omega

theorem copies_str {d : Nat} (h0 : 0 < d) (hd : Mapped μ d (l.length + 1)) (hf : FieldAt μ s2 n l)
    (ha : Apart d (l.length + 1) s2 (min n (l.length + 1))) : Copies μ d s2 n l (l ++ [0]) := by
  have hlen : (l ++ [0]).length = l.length + 1 := List.length_append
  refine ⟨h0, by rw [hlen]; exact hd, hf, by rw [hlen]; exact ha, fun k hk hn => ?_⟩
  rcases Nat.lt_or_eq_of_le hk with hlt | rfl
  · rw [List.getElem?_append_left hlt, hf.holds k hlt]
  · rw [List.getElem?_append_right (Nat.le_refl _), Nat.sub_self]
    rcases hf.ends with he | ⟨-, hz⟩
    · exact absurd he (Nat.ne_of_lt hn)
    · exact hz.symm

theorem CopiedTo.done {d : Nat} (h : CopiedTo μ d s2 (l ++ [0]) (l.length + 1) r) :
    r.mem = write μ d (l ++ [0]) := by
  have htake : (l ++ [0]).take (l.length + 1) = l ++ [0] :=
    List.take_of_length_le (Nat.le_of_eq List.length_append)
  rw [h.mem, htake]

/-- `strcpy` writes the string and its NUL to `dest` -/
theorem strcpy_eq {d : Nat} (h0 : 0 < d) (hs : StrAt μ s2 l) (hd : Mapped μ d (l.length + 1))
    (hap : Apart d (l.length + 1) s2 (l.length + 1)) (hfuel : l.length + 1 < fuel) :
    strcpy fuel μ d s2 = some (write μ d (l ++ [0])) := by
  have A := copies_str h0 hd (StrAt.field hs) (by rw [Nat.min_self]; exact hap)
  have hlen : (l ++ [0]).length = l.length + 1 := List.length_append
  have hread : ∀ k ≤ l.length, write μ d ((l ++ [0]).take k) (s2 + k) = (l ++ [0])[k]? := by
    intro k hk
    rw [A.same k hk (Nat.lt_succ_of_le hk)]
    apply write_of_apart (n := l.length + 1) _ (Nat.lt_succ_of_le hk)
    rw [List.length_take]
    unfold Apart at hap ⊢
    omega
  apply Yields.eq
  apply Yields.bind (R := fun x => x = (write μ d ((l ++ [0]).take l.length), d + l.length))
  · apply forever_yields
      (fun x => ∃ k ≤ l.length, x = (write μ d ((l ++ [0]).take k), s2 + k, d + k))
      (fun x => s2 + l.length + 1 - x.2.1)
    · intro x ⟨k, hk, hx⟩
      subst hx
      rcases Nat.lt_or_eq_of_le hk with hlt | rfl
      · have hget : (l ++ [0])[k]? = some l[k] := by
          rw [List.getElem?_append_left hlt, List.getElem?_eq_getElem hlt]
        have hne : l[k] ≠ 0 := hs.ne_zero (List.getElem?_eq_getElem hlt)
        apply Runs.bind (Runs.access ((hread k hk).trans hget) rfl)
        intro c hc
        subst hc
        rw [if_neg hne]
        apply Runs.bind (Runs.access (put_take A.dest hget) rfl)
        intro m hm
        subst hm
        refine Runs.ok ⟨⟨k + 1, hlt, rfl⟩, ?_⟩
        show s2 + l.length + 1 - (s2 + k + 1) < s2 + l.length + 1 - (s2 + k)
        omega
      · have hget : (l ++ [0])[l.length]? = some 0 := by
          rw [List.getElem?_append_right (Nat.le_refl _), Nat.sub_self]
          rfl
        apply Runs.bind (Runs.access ((hread _ hk).trans hget) rfl)
        intro c hc
        subst hc
        exact Runs.value rfl
    · exact ⟨0, Nat.zero_le _, by rw [List.take_zero, write_nil]; rfl⟩
    · show s2 + l.length + 1 - s2 < fuel
      omega
  · intro x hx
    subst hx
    have hget : (l ++ [0])[l.length]? = some 0 := by
      rw [List.getElem?_append_right (Nat.le_refl _), Nat.sub_self]
      rfl
    have htake : (l ++ [0]).take (l.length + 1) = l ++ [0] :=
      List.take_of_length_le (Nat.le_of_eq hlen)
    show Yields (put (write μ d ((l ++ [0]).take l.length)) (d + l.length) 0) _
    rw [put_take A.dest hget, htake]
    exact Yields.some rfl

theorem catRest_yields {d : Nat} (A : Copies μ d s2 n l (l ++ [0])) (hz : μ d = some 0)
    (h : CopiedChars μ d s2 l (l ++ [0]) k r) (hk : k ≤ n) (hfuel : n < fuel) :
    Yields (catRest fuel r (n - k)) fun m => m = write μ d (l ++ [0]) := by
  have hle := A.field.le
  apply Yields.bind (counted_yields (copyChar_runs A) h hk hfuel)
  intro e he
  rcases he with ⟨r, rfl, h', -⟩ | ⟨r, rfl, h'⟩
  · exact Yields.some h'.done
  · show Yields (if r.c ≠ 0 then put r.mem (r.s1 + 1) 0 else some r.mem) _
    have hlen : l.length = n := Nat.le_antisymm hle h'.le
    have hnul : (l ++ [0])[n]? = some 0 := by
      rw [List.getElem?_append_right (Nat.le_of_eq hlen), hlen, Nat.sub_self]
      rfl
    have htake : (l ++ [0]).take (n + 1) = l ++ [0] := by
      apply List.take_of_length_le
      rw [List.length_append, hlen]
      exact Nat.le_refl _
    by_cases h0 : r.c = 0
    · rw [if_neg (not_not_intro h0)]
      apply Yields.some
      -- nothing has been copied, and `c` is the NUL of the target
      have hn : n = 0 := h'.c.resolve_left (not_not_intro h0)
      have hl : l = [] := List.eq_nil_of_length_eq_zero (hlen.trans hn)
      rw [h'.copied.mem, hn, hl, List.take_zero, write_nil]
      exact (write_same hz).symm
    · rw [if_pos h0, h'.copied.mem, h'.copied.s1, put_take A.dest hnul, htake]
      exact Yields.some rfl

theorem str_append (ha : StrAt μ s1 a) (hl : 0 ∉ l) :
    StrAt (write μ (s1 + a.length) (l ++ [0])) s1 (a ++ l) := by
  refine ⟨fun h => ?_, ?_⟩
  · rcases List.mem_append.mp h with h | h
    · exact ha.no_nul h
    · exact hl h
  · rw [List.append_assoc, holds_append]
    exact ⟨ha.body.write (Or.inr (Nat.le_refl _)), holds_write⟩

/-- **`strncat`** writes the string, cut at `n` bytes, and a NUL behind the string at `s1`, and
nothing else, so that the two are one string -/
theorem strncat_eq (h0 : 0 < s1) (ha : StrAt μ s1 a) (hf : FieldAt μ s2 n l)
    (hd : Mapped μ (s1 + a.length) (l.length + 1))
    (hap : Apart (s1 + a.length) (l.length + 1) s2 (min n (l.length + 1)))
    (hfuel : n < fuel) (hfuel' : a.length + 1 < fuel) :
    strncat fuel μ s1 s2 n = some (write μ (s1 + a.length) (l ++ [0])) ∧
      StrAt (write μ (s1 + a.length) (l ++ [0])) s1 (a ++ l) := by
  refine ⟨Yields.eq ?_, str_append ha hf.no_nul⟩
  have A := copies_str (Nat.add_pos_left h0 _) hd hf hap
  have h : CopiedChars μ (s1 + a.length) s2 l (l ++ [0]) 0 ⟨μ, s1 + a.length - 1, s2, 0⟩ :=
    ⟨copied_zero A.pos, Nat.zero_le _, Or.inr rfl⟩
  apply Yields.bind (end_yields ha hfuel')
  intro e he
  subst he
  show Yields (if n ≥ 4 then _ else catRest fuel ⟨μ, s1 + a.length - 1, s2, 0⟩ n) _
  by_cases h4 : n ≥ 4
  · rw [if_pos h4]
    apply Yields.bind (unrolled_yields (copyChar_runs A) h h4 hfuel)
    intro x hx
    rcases hx with ⟨r, rfl, h', -⟩ | ⟨r, rfl, h'⟩
    · exact Yields.some h'.done
    · have hrest : n &&& 3 = n - (n - n % 4) := by
        rw [and_three]
        omega
      show Yields (catRest fuel r (n &&& 3)) _
      rw [hrest]
      exact catRest_yields A ha.nul h' (Nat.sub_le _ _) hfuel
  · rw [if_neg h4]
    exact catRest_yields (k := 0) A ha.nul h (Nat.zero_le _) hfuel

/-- **`strcat`** -/
theorem strcat_eq (h0 : 0 < s1) (ha : StrAt μ s1 a) (hs : StrAt μ s2 l)
    (hd : Mapped μ (s1 + a.length) (l.length + 1))
    (hap : Apart (s1 + a.length) (l.length + 1) s2 (l.length + 1))
    (hfuel : l.length + 1 < fuel) (hfuel' : a.length + 1 < fuel) :
    strcat fuel μ s1 s2 = some (write μ (s1 + a.length) (l ++ [0])) ∧
      StrAt (write μ (s1 + a.length) (l ++ [0])) s1 (a ++ l) := by
  refine ⟨Yields.eq ?_, str_append ha hs.no_nul⟩
  have A := copies_str (Nat.add_pos_left h0 _) hd (StrAt.field hs) (by rw [Nat.min_self]; exact hap)
  apply Yields.bind (end_yields ha hfuel')
  intro e he
  subst he
  apply forever_yields (fun r => ∃ k, CopiedChars μ (s1 + a.length) s2 l (l ++ [0]) k r)
    (fun r => s2 + l.length + 1 - r.s2)
  · intro r ⟨k, h⟩
    have hle := h.le
    apply (copyChar_runs A k r (Nat.lt_succ_of_le hle) h).mono
    · intro r' h'
      have h2 := h.copied.s2
      have h2' := h'.copied.s2
      exact ⟨⟨k + 1, h'⟩, by omega⟩
    · intro m ⟨r', hm, h', _⟩
      rw [hm]
      exact h'.done
  · exact ⟨0, copied_zero A.pos, Nat.zero_le _, Or.inr rfl⟩
  · show s2 + l.length + 1 - s2 < fuel
    omega

end

end XCalls
