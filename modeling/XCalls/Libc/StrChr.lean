import XCalls.Lib.Space
import XCalls.Lib.While

/-!
# `txc_libc_strchr`, `txc_libc_strrchr`

`string.c`: the search goes from an aligned longword to the next, and only where the test of the
hole bits fires are the characters of the longword looked at.

* `strchr`       for a `long` of `W` bytes (4 or 8);
* `Paged`        the bytes of an aligned longword are mapped together;
* `strchr_eq`    the first occurrence, at every alignment, and no access faults although the last
                 longword reaches behind the string;
* `strrchr_yields`   the last occurrence, for any `strchr` that finds the first one;
* `strchr_first_strrchr_last`   both.
-/

namespace XCalls
open While Space

/-! ## the functions -/

/-- `magic_bits`; any other size of a `long` ends in `abort` -/
def magicBits : (W : Nat) → Option (BitVec (8 * W))
  | 4 => some 0x7efefeff#32
  | 8 => some (((0x7efefefe#64 <<< 16) <<< 16) ||| 0xfefefeff#64)
  | _ => none

def charmask (W : Nat) (c : UInt8) : BitVec (8 * W) :=
  let m := c.toBitVec.setWidth (8 * W)
  let m := m ||| m <<< 8
  let m := m ||| m <<< 16
  if W > 4 then m ||| (m <<< 16) <<< 16 else m

/-- `if (*cp == c) return cp; else if (*cp == '\0') return NULL;` -/
def checkChar {α : Type} (ret : Option Nat → α) (μ : Space) (c : UInt8) (cp : Nat) :
    Except (Stop α) Unit := do
  let b ← access (μ cp)
  if b = c then throw (.value (ret (some cp)))
  else if b = 0 then throw (.value (ret none))

inductive AlignExit where
  | ret (r : Option Nat)
  | aligned (charPtr : Nat)

def alignPass (W : Nat) (μ : Space) (c : UInt8) (charPtr : Nat) : Except (Stop AlignExit) Nat :=
  if charPtr &&& (W - 1) ≠ 0 then do
    checkChar .ret μ c charPtr
    return charPtr + 1
  else throw (.value (.aligned charPtr))

/-- the characters of a longword in which the test has fired -/
def checkLongword (W : Nat) (μ : Space) (c : UInt8) (cp : Nat) :
    Except (Stop (Option Nat)) Unit := do
  checkChar id μ c cp
  checkChar id μ c (cp + 1)
  checkChar id μ c (cp + 2)
  checkChar id μ c (cp + 3)
  if W > 4 then
    checkChar id μ c (cp + 4)
    checkChar id μ c (cp + 5)
    checkChar id μ c (cp + 6)
    checkChar id μ c (cp + 7)

/-- the second loop -/
def wordPass (W : Nat) (μ : Space) (c : UInt8) (magic : BitVec (8 * W)) (longwordPtr : Nat) :
    Except (Stop (Option Nat)) Nat := do
  let longword ← access (loadWord μ longwordPtr W)
  if unchanged magic longword ≠ 0#(8 * W) ∨
      unchanged magic (longword ^^^ charmask W c) ≠ 0#(8 * W) then do
    checkLongword W μ c longwordPtr
    return longwordPtr + W
  else return longwordPtr + W

/-- `txc_libc_strchr`: the address that is returned, or `none` in it for `NULL` -/
def strchr (W fuel : Nat) (μ : Space) (s : Nat) (cIn : Int) : Option (Option Nat) := do
  let c := UInt8.ofInt cIn
  match ← forever (alignPass W μ c) fuel s with
  | .ret r => return r
  | .aligned charPtr =>
    let magic ← magicBits W
    forever (wordPass W μ c magic) fuel charPtr

/-- the loop of `txc_libc_strrchr`, on `found` and `s` -/
def strrchrPass (strchr : Nat → Int → Option (Option Nat)) (c : Int) (r : Option Nat × Nat) :
    Except (Stop (Option Nat)) (Option Nat × Nat) := do
  match ← access (strchr r.2 c) with
  | none => throw (.value r.1)
  | some p => return (some p, p + 1)

/-- `txc_libc_strrchr`, with the `strchr` that it calls -/
def strrchr (strchr : Nat → Int → Option (Option Nat)) (fuel : Nat) (s : Nat) (c : Int) :
    Option (Option Nat) :=
  let c : Int := (UInt8.ofInt c).toNat
  if c = 0 then strchr s 0 else forever (strrchrPass strchr c) fuel (none, s)

/-! ## the longwords -/

variable {W : Nat} {μ : Space} {s k : Nat} {l : List UInt8} {c : UInt8}

/-- memory is mapped by pages, whose size is a multiple of `W` -/
def Paged (W : Nat) (μ : Space) : Prop :=
  ∀ a, (μ a).isSome → ∀ b, b / W = a / W → (μ b).isSome

theorem magic_holes {m : BitVec (8 * W)} (hm : magicBits W = some m) :
    ∀ i < W, HoleAt m i (min (8 * i + 8) (8 * W - 1)) := by
  unfold magicBits at hm
  split at hm
  · cases hm
    intro i hi
    have h : ∀ i < 4, (0x7efefeff#32).toNat % 2 ^ min (8 * i + 8) 31 + 2 ^ (8 * i) ≤
        2 ^ min (8 * i + 8) 31 ∧ (0x7efefeff#32).toNat / 2 ^ min (8 * i + 8) 31 % 2 = 0 := by decide
    exact ⟨by omega, by omega, by omega, (h i hi).1, (h i hi).2⟩
  · cases hm
    intro i hi
    have h : ∀ i < 8, (((0x7efefefe#64 <<< 16) <<< 16) ||| 0xfefefeff#64).toNat %
        2 ^ min (8 * i + 8) 63 + 2 ^ (8 * i) ≤ 2 ^ min (8 * i + 8) 63 ∧
        (((0x7efefefe#64 <<< 16) <<< 16) ||| 0xfefefeff#64).toNat /
          2 ^ min (8 * i + 8) 63 % 2 = 0 := by decide
    exact ⟨by omega, by omega, by omega, (h i hi).1, (h i hi).2⟩
  · cases hm

theorem size_of_magic {m : BitVec (8 * W)} (hm : magicBits W = some m) : W = 4 ∨ W = 8 := by
  unfold magicBits at hm
  split at hm
  · exact Or.inl rfl
  · exact Or.inr rfl
  · cases hm

theorem byte_charmask (hW : W = 4 ∨ W = 8) (c : UInt8) {i : Nat} (hi : i < W) :
    byte (charmask W c) i = c := by
  apply UInt8.toBitVec_inj.mp
  apply BitVec.eq_of_getLsbD_eq
  intro j hj
  rw [bit_byte _ _ hj]
  rcases hW with rfl | rfl
  · simp only [charmask, gt_iff_lt, Nat.lt_irrefl, if_false, BitVec.getLsbD_or,
      BitVec.getLsbD_shiftLeft, BitVec.getLsbD_setWidth]
    interval_cases i <;> interval_cases j <;> simp
  · simp only [charmask, gt_iff_lt, show 4 < 8 by decide, if_true, BitVec.getLsbD_or,
      BitVec.getLsbD_shiftLeft, BitVec.getLsbD_setWidth]
    interval_cases i <;> interval_cases j <;> simp

/-- a longword that the test passes over has no NUL and no `c` in it -/
theorem byte_of_unchanged {m w : BitVec (8 * W)} (hm : magicBits W = some m)
    (h : ¬ (unchanged m w ≠ 0#(8 * W) ∨ unchanged m (w ^^^ charmask W c) ≠ 0#(8 * W)))
    {i : Nat} (hi : i < W) : byte w i ≠ 0 ∧ byte w i ≠ c := by
  have hole := magic_holes hm i hi
  constructor
  · intro hz
    exact h (Or.inl (unchanged_of_zero hole hz))
  · intro hz
    apply h
    right
    apply unchanged_of_zero hole
    have hxor : byte (w ^^^ charmask W c) i = byte w i ^^^ byte (charmask W c) i := by
      apply UInt8.toBitVec_inj.mp
      apply BitVec.eq_of_getLsbD_eq
      intro j hj
      rw [bit_byte _ _ hj, UInt8.toBitVec_xor, BitVec.getLsbD_xor, BitVec.getLsbD_xor,
        bit_byte _ _ hj, bit_byte _ _ hj]
    rw [hxor, byte_charmask (size_of_magic hm) c hi, hz, UInt8.xor_self]

/-! ## the search -/

/-- where the first `c` is, the NUL included -/
def firstOf (s : Nat) (l : List UInt8) (c : UInt8) : Option Nat :=
  ((l ++ [0]).idxOf? c).map (s + ·)

structure Passed (l : List UInt8) (c : UInt8) (k : Nat) : Prop where
  le : k ≤ l.length
  unseen : ∀ i (h : i < (l ++ [0]).length), i < k → (l ++ [0])[i] ≠ c

theorem Passed.zero : Passed l c 0 :=
  ⟨Nat.zero_le _, fun i _ hi => absurd hi (Nat.not_lt_zero i)⟩

theorem Passed.lt (h : Passed l c k) : k < (l ++ [0]).length := by
  rw [List.length_append]
  exact Nat.lt_succ_of_le h.le

theorem Passed.char (h : Passed l c k) (hs : StrAt μ s l) :
    μ (s + k) = some ((l ++ [0]).get ⟨k, h.lt⟩) := by
  rw [hs.holds k h.lt, List.getElem?_eq_getElem h.lt]
  rfl

theorem Passed.found (h : Passed l c k) (hc : (l ++ [0]).get ⟨k, h.lt⟩ = c) :
    firstOf s l c = some (s + k) := by
  have hidx : (l ++ [0]).idxOf? c = some k := by
    rw [List.idxOf?_eq_some_iff]
    exact ⟨h.lt, hc, fun i hi => h.unseen i (Nat.lt_trans hi h.lt) hi⟩
  rw [firstOf, hidx]
  rfl

theorem Passed.succ (h : Passed l c k) (hc : (l ++ [0]).get ⟨k, h.lt⟩ ≠ c)
    (hz : (l ++ [0]).get ⟨k, h.lt⟩ ≠ 0) : Passed l c (k + 1) := by
  constructor
  · rcases Nat.lt_or_eq_of_le h.le with hlt | heq
    · exact hlt
    · exact absurd (by simp [heq]) hz
  · intro i hi hik
    rcases Nat.lt_succ_iff_lt_or_eq.mp hik with hlt | rfl
    · exact h.unseen i hi hlt
    · exact hc

theorem Passed.absent (h : Passed l c k) (hs : StrAt μ s l) (hc : (l ++ [0]).get ⟨k, h.lt⟩ ≠ c)
    (hz : (l ++ [0]).get ⟨k, h.lt⟩ = 0) : firstOf s l c = none := by
  have hk : k = l.length := by
    rcases Nat.lt_or_eq_of_le h.le with hlt | heq
    · rw [List.get_eq_getElem, List.getElem_append_left hlt] at hz
      exact absurd (List.mem_of_getElem hz) hs.no_nul
    · exact heq
  have hidx : (l ++ [0]).idxOf? c = none := by
    rw [List.idxOf?_eq_none_iff]
    intro hmem
    obtain ⟨i, hi, hic⟩ := List.getElem_of_mem hmem
    rw [List.length_append, List.length_singleton] at hi
    rcases Nat.lt_succ_iff_lt_or_eq.mp (hk ▸ hi) with hlt | rfl
    · exact h.unseen i _ hlt hic
    · exact hc hic
  rw [firstOf, hidx]
  rfl

theorem checkChar_runs {α : Type} {ret : Option Nat → α} (hs : StrAt μ s l) (h : Passed l c k) :
    Runs (checkChar ret μ c (s + k)) (fun _ => Passed l c (k + 1))
      (fun a => a = ret (firstOf s l c)) := by
  apply Runs.bind (Runs.access (h.char hs) rfl)
  intro b hb
  subst hb
  by_cases hc : (l ++ [0]).get ⟨k, h.lt⟩ = c
  · rw [if_pos hc]
    exact Runs.value (by rw [h.found hc])
  · rw [if_neg hc]
    by_cases hz : (l ++ [0]).get ⟨k, h.lt⟩ = 0
    · rw [if_pos hz]
      exact Runs.value (by rw [h.absent hs hc hz])
    · rw [if_neg hz]
      exact Runs.ok (h.succ hc hz)

theorem checkLongword_runs (hW : W = 4 ∨ W = 8) (hs : StrAt μ s l) (h : Passed l c k) :
    Runs (checkLongword W μ c (s + k)) (fun _ => Passed l c (k + W))
      (fun a => a = firstOf s l c) := by
  apply Runs.bind (checkChar_runs hs h)
  intro _ h1
  apply Runs.bind (checkChar_runs hs h1)
  intro _ h2
  apply Runs.bind (checkChar_runs hs h2)
  intro _ h3
  apply Runs.bind (checkChar_runs hs h3)
  intro _ h4
  rcases hW with rfl | rfl
  · exact Runs.ok h4
  · apply Runs.bind (checkChar_runs hs h4)
    intro _ h5
    apply Runs.bind (checkChar_runs hs h5)
    intro _ h6
    apply Runs.bind (checkChar_runs hs h6)
    intro _ h7
    exact checkChar_runs hs h7

/-- a longword without `c` and NUL is passed over -/
theorem Passed.word {w : BitVec (8 * W)} (hs : StrAt μ s l) (hw : loadWord μ (s + k) W = some w)
    (hne : ∀ i < W, byte w i ≠ 0 ∧ byte w i ≠ c) (h : Passed l c k) :
    ∀ n ≤ W, Passed l c (k + n) := by
  intro n
  induction n with
  | zero => exact fun _ => h
  | succ n ih =>
    intro hn
    have hp := ih (Nat.le_of_succ_le hn)
    have hbyte : (l ++ [0]).get ⟨k + n, hp.lt⟩ = byte w n := by
      have hchar := hp.char hs
      rw [← Nat.add_assoc, loadWord_eq_some.mp hw n hn] at hchar
      exact (Option.some.inj hchar).symm
    obtain ⟨h0, hc⟩ := hne n hn
    exact hp.succ (by rw [hbyte]; exact hc) (by rw [hbyte]; exact h0)

theorem Paged.mapped (hp : Paged W μ) {a : Nat} (hW : 0 < W) (ha : (μ a).isSome)
    (hal : a % W = 0) : Mapped μ a W := by
  intro i hi
  apply hp a ha
  have hd := Nat.div_add_mod a W
  rw [hal, Nat.add_zero] at hd
  rw [← hd, Nat.mul_add_div hW, Nat.mul_div_cancel_left _ hW, Nat.div_eq_of_lt hi, Nat.add_zero]

theorem wordPass_runs {m : BitVec (8 * W)} (hm : magicBits W = some m) (hs : StrAt μ s l)
    (hpg : Paged W μ) (hal : (s + k) % W = 0) (h : Passed l c k) :
    Runs (wordPass W μ c m (s + k)) (fun p => p = s + (k + W) ∧ Passed l c (k + W))
      (fun a => a = firstOf s l c) := by
  have hW := size_of_magic hm
  have hmap := hpg.mapped (by omega) (Option.isSome_iff_exists.mpr ⟨_, h.char hs⟩) hal
  obtain ⟨w, hw⟩ := loadWord_of_mapped hmap
  apply Runs.bind (Runs.access hw rfl)
  intro w' hw'
  subst hw'
  by_cases htest : unchanged m w ≠ 0#(8 * W) ∨ unchanged m (w ^^^ charmask W c) ≠ 0#(8 * W)
  · rw [if_pos htest]
    apply Runs.bind (checkLongword_runs hW hs h)
    intro _ hp
    exact Runs.ok ⟨Nat.add_assoc _ _ _, hp⟩
  · rw [if_neg htest]
    exact Runs.ok ⟨Nat.add_assoc _ _ _,
      h.word hs hw (fun i hi => byte_of_unchanged hm htest hi) W (Nat.le_refl W)⟩

theorem alignPass_runs (hW : W = 4 ∨ W = 8) (hs : StrAt μ s l) (h : Passed l c k) :
    Runs (alignPass W μ c (s + k)) (fun p => p = s + (k + 1) ∧ Passed l c (k + 1))
      (fun a => a = .ret (firstOf s l c) ∨ a = .aligned (s + k) ∧ (s + k) % W = 0) := by
  unfold alignPass
  by_cases hal : s + k &&& (W - 1) = 0
  · rw [if_neg (not_not_intro hal)]
    apply Runs.value
    right
    refine ⟨rfl, ?_⟩
    rcases hW with rfl | rfl
    · rw [← hal]
      exact (Nat.and_two_pow_sub_one_eq_mod (s + k) 2).symm
    · rw [← hal]
      exact (Nat.and_two_pow_sub_one_eq_mod (s + k) 3).symm
  · rw [if_pos hal]
    apply Runs.bind ((checkChar_runs hs h).mono (fun _ h => h) fun a ha => Or.inl ha)
    intro _ hp
    exact Runs.ok ⟨rfl, hp⟩

/-- the first loop returns, or it leaves the search at an aligned address -/
theorem align_yields (hW : W = 4 ∨ W = 8) (hs : StrAt μ s l) {fuel : Nat}
    (hfuel : l.length + 1 < fuel) :
    Yields (forever (alignPass W μ c) fuel s) fun a => a = .ret (firstOf s l c) ∨
      ∃ k, a = .aligned (s + k) ∧ (s + k) % W = 0 ∧ Passed l c k := by
  apply forever_yields (fun p => ∃ k, p = s + k ∧ Passed l c k) (fun p => s + l.length + 1 - p)
  · intro p ⟨k, hp, h⟩
    subst hp
    apply (alignPass_runs hW hs h).mono
    · intro p' ⟨hp', h'⟩
      have hle := h.le
      exact ⟨⟨k + 1, hp', h'⟩, by omega⟩
    · intro a ha
      exact ha.imp id fun ⟨ha, hal⟩ => ⟨k, ha, hal, h⟩
  · exact ⟨0, rfl, Passed.zero⟩
  · omega

theorem word_yields {m : BitVec (8 * W)} (hm : magicBits W = some m) (hs : StrAt μ s l)
    (hpg : Paged W μ) (hal : (s + k) % W = 0) (h : Passed l c k) {fuel : Nat}
    (hfuel : l.length + 1 < fuel) :
    Yields (forever (wordPass W μ c m) fuel (s + k)) fun a => a = firstOf s l c := by
  have hW := size_of_magic hm
  apply forever_yields (fun p => ∃ k, p = s + k ∧ (s + k) % W = 0 ∧ Passed l c k)
    (fun p => s + l.length + 1 - p)
  · intro p ⟨k, hp, hal, h⟩
    subst hp
    apply (wordPass_runs hm hs hpg hal h).mono
    · intro p' ⟨hp', h'⟩
      have hle := h.le
      refine ⟨⟨k + W, hp', ?_, h'⟩, by omega⟩
      rw [← Nat.add_assoc, Nat.add_mod_right, hal]
    · exact fun a ha => ha
  · exact ⟨k, rfl, hal, h⟩
  · have hle := h.le
    omega

theorem strchr_eq {m : BitVec (8 * W)} (hm : magicBits W = some m) (hs : StrAt μ s l)
    (hpg : Paged W μ) (cIn : Int) {fuel : Nat} (hfuel : l.length + 1 < fuel) :
    strchr W fuel μ s cIn = some (firstOf s l (UInt8.ofInt cIn)) := by
  apply Yields.eq
  apply Yields.bind (align_yields (size_of_magic hm) hs hfuel)
  intro a ha
  rcases ha with rfl | ⟨k, rfl, hal, h⟩
  · exact Yields.some rfl
  · apply Yields.bind (R := fun m' => m' = m) (hm ▸ Yields.some rfl)
    intro m' hm'
    subst hm'
    exact word_yields hm hs hpg hal h hfuel

/-! ## the last occurrence -/

/-- where the last `c` is among the first `k` of the characters `t` -/
def LastIn (s : Nat) (t : List UInt8) (c : UInt8) (k : Nat) : Option Nat → Prop
  | none => ∀ i < k, t[i]? ≠ some c
  | some p => ∃ i < k, p = s + i ∧ t[i]? = some c ∧ ∀ j, i < j → j < k → t[j]? ≠ some c

theorem LastIn.here {i : Nat} {t : List UInt8} (hi : t[i]? = some c) :
    LastIn s t c (i + 1) (some (s + i)) :=
  ⟨i, Nat.lt_succ_self i, rfl, hi, fun _ h1 h2 => absurd h2 (Nat.not_lt.mpr h1)⟩

theorem LastIn.mono {r : Option Nat} {n : Nat} {t : List UInt8} (h : LastIn s t c k r)
    (hn : k ≤ n) (hno : ∀ i, k ≤ i → i < n → t[i]? ≠ some c) : LastIn s t c n r := by
  cases r with
  | none =>
    intro i hi
    by_cases hk : i < k
    · exact h i hk
    · exact hno i (Nat.le_of_not_lt hk) hi
  | some p =>
    obtain ⟨i, hi, hp, hc, hlast⟩ := h
    refine ⟨i, Nat.lt_of_lt_of_le hi hn, hp, hc, fun j hij hj => ?_⟩
    by_cases hk : j < k
    · exact hlast j hij hk
    · exact hno j (Nat.le_of_not_lt hk) hj

/-- the NUL is where the string ends -/
theorem firstOf_nul (hs : StrAt μ s l) : firstOf s l 0 = some (s + l.length) := by
  have hpassed : Passed l 0 l.length := by
    refine ⟨Nat.le_refl _, fun i _ hlt h0 => ?_⟩
    rw [List.getElem_append_left hlt] at h0
    exact hs.no_nul (List.mem_of_getElem h0)
  apply hpassed.found
  rw [List.get_eq_getElem, List.getElem_append_right (Nat.le_refl _)]
  simp only [Nat.sub_self, List.getElem_singleton]

/-- what `strchr` returns for the rest of a string -/
theorem firstOf_drop {r : Option Nat} (hk : k ≤ l.length)
    (hr : firstOf (s + k) (l.drop k) c = r) :
    (r = none ∧ ∀ i, k ≤ i → i < l.length + 1 → (l ++ [0])[i]? ≠ some c) ∨
      ∃ j, r = some (s + (k + j)) ∧ (l ++ [0])[k + j]? = some c := by
  have hdrop : l.drop k ++ [0] = (l ++ [0]).drop k := (List.drop_append_of_le_length hk).symm
  rw [firstOf, hdrop] at hr
  cases hidx : ((l ++ [0]).drop k).idxOf? c with
  | none =>
    rw [hidx] at hr
    left
    refine ⟨hr.symm, fun i h1 _ hic => ?_⟩
    apply List.idxOf?_eq_none_iff.mp hidx
    apply List.mem_of_getElem? (i := i - k)
    rw [List.getElem?_drop, Nat.add_sub_cancel' h1]
    exact hic
  | some j =>
    rw [hidx] at hr
    obtain ⟨hj, hjc, -⟩ := List.idxOf?_eq_some_iff.mp hidx
    right
    refine ⟨j, by rw [← hr, Option.map_some, Nat.add_assoc], ?_⟩
    rw [← List.getElem?_drop, List.getElem?_eq_getElem hj, hjc]

theorem ofInt_toNat (c : UInt8) : UInt8.ofInt (c.toNat : Int) = c := by
  apply UInt8.toNat.inj
  have h := c.toNat_lt
  rw [UInt8.ofInt, UInt8.toNat_ofNat']
  omega

section
variable {find : Nat → Int → Option (Option Nat)} (hfind : ∀ k ≤ l.length, ∀ c,
  find (s + k) c = some (firstOf (s + k) (l.drop k) (UInt8.ofInt c)))
include hfind

theorem strrchrPass_runs (hc : c ≠ 0) {r : Option Nat} (hk : k ≤ l.length)
    (h : LastIn s (l ++ [0]) c k r) :
    Runs (strrchrPass find c.toNat (r, s + k))
      (fun r' => ∃ k', k < k' ∧ k' ≤ l.length ∧ r'.2 = s + k' ∧ LastIn s (l ++ [0]) c k' r'.1)
      (LastIn s (l ++ [0]) c (l.length + 1)) := by
  have hcall := hfind k hk c.toNat
  rw [ofInt_toNat] at hcall
  apply Runs.bind (Runs.access hcall rfl)
  intro r' hr'
  rcases firstOf_drop hk hr' with ⟨rfl, hno⟩ | ⟨j, rfl, hj⟩
  · exact Runs.value (h.mono (by omega) hno)
  · have hlt : k + j < l.length := by
      obtain ⟨hlt, hget⟩ := List.getElem?_eq_some_iff.mp hj
      rw [List.length_append, List.length_singleton] at hlt
      rcases Nat.lt_succ_iff_lt_or_eq.mp hlt with h' | h'
      · exact h'
      · rw [List.getElem_append_right (by omega)] at hget
        simp only [List.getElem_singleton] at hget
        exact absurd hget.symm hc
    exact Runs.ok ⟨k + j + 1, by omega, by omega, rfl, LastIn.here hj⟩

theorem strrchr_yields (hs : StrAt μ s l) (cIn : Int) {fuel : Nat} (hfuel : l.length + 1 < fuel) :
    Yields (strrchr find fuel s cIn)
      (LastIn s (l ++ [0]) (UInt8.ofInt cIn) (l.length + 1)) := by
  unfold strrchr
  by_cases hc : UInt8.ofInt cIn = 0
  · have hcall : find s 0 = some (firstOf s l 0) := hfind 0 (Nat.zero_le _) 0
    rw [if_pos (by rw [hc]; rfl), hcall, hc, firstOf_nul hs]
    apply Yields.some
    refine ⟨l.length, Nat.lt_succ_self _, rfl, ?_, fun j h1 h2 => absurd h1 (by omega)⟩
    rw [List.getElem?_append_right (Nat.le_refl _), Nat.sub_self]
    rfl
  · have hne : ((UInt8.ofInt cIn).toNat : Int) ≠ 0 := by
      intro h
      exact hc (UInt8.toNat.inj (Int.ofNat.inj h))
    rw [if_neg hne]
    apply forever_yields
      (fun r => ∃ k, k ≤ l.length ∧ r.2 = s + k ∧ LastIn s (l ++ [0]) (UInt8.ofInt cIn) k r.1)
      (fun r => s + l.length + 1 - r.2)
    · intro ⟨r, p⟩ ⟨k, hk, hp, h⟩
      replace hp : p = s + k := hp
      subst hp
      apply (strrchrPass_runs hfind hc hk h).mono
      · intro r' ⟨k', hlt, hk', hr', h'⟩
        refine ⟨⟨k', hk', hr', h'⟩, ?_⟩
        rw [hr']
        omega
      · exact fun a ha => ha
    · exact ⟨0, Nat.zero_le _, rfl, fun i hi => absurd hi (Nat.not_lt_zero i)⟩
    · show s + l.length + 1 - s < fuel
      omega

end

/-- **`strchr` finds the first occurrence, and `strrchr` the last one**, the NUL included, or they
return `NULL`, for a string at any address, with any bytes before and behind it, and without a
fault -/
theorem strchr_first_strrchr_last {m : BitVec (8 * W)} (hm : magicBits W = some m)
    (hs : StrAt μ s l) (hpg : Paged W μ) (cIn : Int) {fuel : Nat} (hfuel : l.length + 1 < fuel) :
    strchr W fuel μ s cIn = some (firstOf s l (UInt8.ofInt cIn)) ∧
      Yields (strrchr (strchr W fuel μ) fuel s cIn)
        (LastIn s (l ++ [0]) (UInt8.ofInt cIn) (l.length + 1)) := by
  refine ⟨strchr_eq hm hs hpg cIn hfuel, strrchr_yields ?_ hs cIn hfuel⟩
  intro k hk c
  apply strchr_eq hm (hs.drop hk) hpg c
  rw [List.length_drop]
  omega

/-- two pages of 8 bytes; the string `a`, `255`, `b`, `b` ends one byte before the second one -/
def pagedBytes : Space := fun a =>
  if 8 ≤ a ∧ a < 24 then some ([97, 255, 98, 98, 0].getD (a - 11) 7) else none

theorem pagedBytes_str : StrAt pagedBytes 11 [97, 255, 98, 98] := by
  refine ⟨by decide, ?_⟩
  unfold Holds
  decide

theorem pagedBytes_paged : Paged 8 pagedBytes := by
  intro a ha b hb
  unfold pagedBytes at ha ⊢
  split at ha
  · rw [if_pos (by omega)]
    rfl
  · cases ha

theorem strchr_first_strrchr_last_paged : strchr 8 7 pagedBytes 11 98 = some (some 13) ∧
    Yields (strrchr (strchr 8 7 pagedBytes) 7 11 98) (LastIn 11 [97, 255, 98, 98, 0] 98 5) :=
  strchr_first_strrchr_last (W := 8) rfl pagedBytes_str pagedBytes_paged 98 (by decide)

end XCalls
