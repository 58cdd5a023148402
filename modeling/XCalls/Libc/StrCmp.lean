import XCalls.Lib.Space
import XCalls.Lib.While

/-!
# `txc_libc_strcmp`, `txc_libc_strncmp`

`string.c`: `strcmp` subtracts characters as `char`, `strncmp` as `unsigned char`, four of them in a
pass.

* `cmpBy`        the difference of the first two characters that differ, with a value for each;
* `charsStraddle`   these two characters lie on both sides of 128, the NUL included;
* `strcmp_eq`, `strncmp_eq`   the values returned;
* `strcmp_strncmp`   both tell whether the strings are equal; `strncmp` orders them
                 lexicographically, and `strcmp` exactly if they do not straddle 128.
-/

namespace XCalls
open While Space

/-! ## the functions -/

/-- a `char`, which is signed -/
def charValue (b : UInt8) : Int := if b.toNat < 128 then b.toNat else (b.toNat : Int) - 256

/-- the loop of `txc_libc_strcmp`, on `a` and `b` -/
def strcmpPass (μ : Space) (x : Nat × Nat) : Except (Stop Int) (Nat × Nat) := do
  let c1 ← access (μ x.1)
  let c2 ← access (μ x.2)
  if charValue c1 - charValue c2 ≠ 0 then throw (.value (charValue c1 - charValue c2))
  else if c1 ≠ 0 ∧ c2 ≠ 0 then return (x.1 + 1, x.2 + 1)
  else throw (.value 0)

/-- `txc_libc_strcmp` -/
def strcmp (fuel : Nat) (μ : Space) (a b : Nat) : Option Int := forever (strcmpPass μ) fuel (a, b)

structure CmpRegs where
  s1 : Nat
  s2 : Nat
  c1 : UInt8
  c2 : UInt8

/-- `return c1 - c2`, in `int` -/
def CmpRegs.diff (r : CmpRegs) : Int := (r.c1.toNat : Int) - r.c2.toNat

inductive CmpExit where
  | ret (v : Int)
  | rest (r : CmpRegs)

/-- `c1 = *s1++; c2 = *s2++; if (c1 == '\0' || c1 != c2) return c1 - c2;` -/
def cmpChar (μ : Space) (r : CmpRegs) : Except (Stop CmpExit) CmpRegs := do
  let c1 ← access (μ r.s1)
  let c2 ← access (μ r.s2)
  let r : CmpRegs := ⟨r.s1 + 1, r.s2 + 1, c1, c2⟩
  if c1 = 0 ∨ c1 ≠ c2 then throw (.value (.ret r.diff)) else return r

/-- `txc_libc_strncmp` behind its unrolled loop -/
def cmpRest (fuel : Nat) (μ : Space) (r : CmpRegs) (n : Nat) : Option Int := do
  match ← forever (counted (cmpChar μ) .rest) fuel (r, n) with
  | .ret v => return v
  | .rest r => return r.diff

/-- `txc_libc_strncmp` -/
def strncmp (fuel : Nat) (μ : Space) (s1 s2 n : Nat) : Option Int :=
  let r : CmpRegs := ⟨s1, s2, 0, 0⟩
  if n ≥ 4 then do
    match ← forever (unrolled (cmpChar μ) .rest) fuel (r, n >>> 2) with
    | .ret v => return v
    | .rest r => cmpRest fuel μ r (n &&& 3)
  else cmpRest fuel μ r n

/-! ## the first difference -/

def cmpBy (f : UInt8 → Int) : List UInt8 → List UInt8 → Int
  | [], [] => 0
  | [], b :: _ => f 0 - f b
  | a :: _, [] => f a - f 0
  | a :: x, b :: y => if a = b then cmpBy f x y else f a - f b

def byteValue (b : UInt8) : Int := b.toNat

def charsStraddle : List UInt8 → List UInt8 → Bool
  | [], [] => false
  | [], b :: _ => decide (128 ≤ b.toNat)
  | a :: _, [] => decide (128 ≤ a.toNat)
  | a :: x, b :: y =>
    if a = b then charsStraddle x y else decide (a.toNat < 128) != decide (b.toNat < 128)

variable {μ : Space} {s1 s2 n k fuel : Nat} {l l' x y : List UInt8} {f : UInt8 → Int}

theorem charValue_inj {a b : UInt8} (h : charValue a = charValue b) : a = b := by
  have ha := a.toNat_lt
  have hb := b.toNat_lt
  unfold charValue at h
  apply UInt8.toNat.inj
  split at h <;> split at h <;> omega

theorem byteValue_inj {a b : UInt8} (h : byteValue a = byteValue b) : a = b :=
  UInt8.toNat.inj (Int.ofNat.inj h)

/-- the next characters differ, or both strings end, or both go on -/
theorem cmpBy_head (hx : 0 ∉ x) (hy : 0 ∉ y) :
    (x.headD 0 ≠ y.headD 0 ∧ cmpBy f x y = f (x.headD 0) - f (y.headD 0)) ∨
      (x = [] ∧ y = [] ∧ cmpBy f x y = 0) ∨
      (x.headD 0 = y.headD 0 ∧ x.headD 0 ≠ 0 ∧ x ≠ [] ∧ y ≠ [] ∧
        cmpBy f x y = cmpBy f x.tail y.tail) := by
  cases x with
  | nil =>
    cases y with
    | nil => exact Or.inr (Or.inl ⟨rfl, rfl, rfl⟩)
    | cons b y =>
      have hb : (0 : UInt8) ≠ b := fun h => hy (h ▸ List.mem_cons_self)
      exact Or.inl ⟨hb, rfl⟩
  | cons a x =>
    cases y with
    | nil =>
      have ha : a ≠ 0 := fun h => hx (h ▸ List.mem_cons_self)
      exact Or.inl ⟨ha, rfl⟩
    | cons b y =>
      have ha : a ≠ 0 := fun h => hx (h ▸ List.mem_cons_self)
      by_cases hab : a = b
      · exact Or.inr (Or.inr ⟨hab, ha, List.cons_ne_nil _ _, List.cons_ne_nil _ _, if_pos hab⟩)
      · exact Or.inl ⟨hab, if_neg hab⟩

theorem cmpBy_eq_zero (hf : ∀ a b, f a = f b → a = b) (x : List UInt8) :
    ∀ y, 0 ∉ x → 0 ∉ y → (cmpBy f x y = 0 ↔ x = y) := by
  induction x with
  | nil =>
    intro y _ hy
    cases y with
    | nil => exact Iff.intro (fun _ => rfl) fun _ => rfl
    | cons b y =>
      have hb : (0 : UInt8) ≠ b := fun h => hy (h ▸ List.mem_cons_self)
      constructor
      · intro h
        exact absurd (hf _ _ (Int.sub_eq_zero.mp h)) hb
      · intro h
        cases h
  | cons a x ih =>
    intro y hx hy
    cases y with
    | nil =>
      have ha : a ≠ 0 := fun h => hx (h ▸ List.mem_cons_self)
      constructor
      · intro h
        exact absurd (hf _ _ (Int.sub_eq_zero.mp h)) ha
      · intro h
        cases h
    | cons b y =>
      by_cases hab : a = b
      · subst hab
        rw [cmpBy, if_pos rfl, List.cons.injEq,
          ih y (fun h => hx (List.mem_cons_of_mem _ h)) fun h => hy (List.mem_cons_of_mem _ h)]
        exact ⟨fun h => ⟨rfl, h⟩, fun h => h.2⟩
      · rw [cmpBy, if_neg hab, List.cons.injEq]
        constructor
        · intro h
          exact absurd (hf _ _ (Int.sub_eq_zero.mp h)) hab
        · intro h
          exact absurd h.1 hab

/-- with the values of bytes, the sign is that of the lexicographic order -/
theorem cmpBy_byteValue_neg (x : List UInt8) :
    ∀ y, 0 ∉ y → (cmpBy byteValue x y < 0 ↔ x < y) := by
  induction x with
  | nil =>
    intro y hy
    cases y with
    | nil => exact iff_of_false (Int.lt_irrefl 0) (List.lt_irrefl _)
    | cons b y =>
      have hb : b.toNat ≠ 0 := by
        intro h
        have h0 : (0 : UInt8) = b := UInt8.toNat.inj h.symm
        exact hy (h0 ▸ List.mem_cons_self)
      refine ⟨fun _ => List.nil_lt_cons b y, fun _ => ?_⟩
      show ((0 : Nat) : Int) - (b.toNat : Int) < 0
      omega
  | cons a x ih =>
    intro y hy
    cases y with
    | nil =>
      refine ⟨fun h => ?_, fun h => absurd h (List.not_lt_nil _)⟩
      have : (a.toNat : Int) - ((0 : Nat) : Int) < 0 := h
      omega
    | cons b y =>
      rw [List.cons_lt_cons_iff, cmpBy]
      by_cases hab : a = b
      · subst hab
        rw [if_pos rfl, ih y fun h => hy (List.mem_cons_of_mem _ h)]
        have hirr : ¬ a < a := UInt8.lt_irrefl a
        simp only [hirr, false_or, true_and]
      · rw [if_neg hab, UInt8.lt_iff_toNat_lt]
        show (a.toNat : Int) - (b.toNat : Int) < 0 ↔ _
        constructor
        · intro h
          exact Or.inl (by omega)
        · intro h
          rcases h with h | h
          · omega
          · exact absurd h.1 hab

theorem charValue_lt {a b : UInt8} (hab : a ≠ b) :
    (charValue a - charValue b < 0 ↔ a.toNat < b.toNat) ↔
      (decide (a.toNat < 128) != decide (b.toNat < 128)) = false := by
  have ha := a.toNat_lt
  have hb := b.toNat_lt
  have hne : a.toNat ≠ b.toNat := fun h => hab (UInt8.toNat.inj h)
  unfold charValue
  by_cases h1 : a.toNat < 128
  · by_cases h2 : b.toNat < 128
    · simp only [h1, h2, if_true, decide_true, bne_self_eq_false, iff_true]
      omega
    · simp only [h1, h2, if_true, if_false, decide_true, decide_false]
      refine iff_of_false (fun h => ?_) (by decide)
      have := h.mpr (by omega)
      omega
  · by_cases h2 : b.toNat < 128
    · simp only [h1, h2, if_true, if_false, decide_true, decide_false]
      refine iff_of_false (fun h => ?_) (by decide)
      have := h.mp (by omega)
      omega
    · simp only [h1, h2, if_false, decide_false, bne_self_eq_false, iff_true]
      omega

/-- with the values of `char`s it is, exactly if the strings do not straddle 128 -/
theorem cmpBy_charValue_neg (x : List UInt8) : ∀ y, 0 ∉ x → 0 ∉ y →
    ((cmpBy charValue x y < 0 ↔ x < y) ↔ charsStraddle x y = false) := by
  induction x with
  | nil =>
    intro y _ hy
    cases y with
    | nil =>
      exact iff_of_true (iff_of_false (Int.lt_irrefl 0) (List.lt_irrefl _)) rfl
    | cons b y =>
      have hb : (0 : UInt8) ≠ b := fun h => hy (h ▸ List.mem_cons_self)
      have h := charValue_lt hb
      have hpos : (0 : UInt8).toNat < b.toNat := by
        have : b.toNat ≠ 0 := fun h => hb (UInt8.toNat.inj h).symm
        exact Nat.pos_of_ne_zero this
      have hlt : ([] : List UInt8) < b :: y := List.nil_lt_cons b y
      rw [iff_true_right hpos] at h
      rw [iff_true_right hlt]
      refine h.trans ?_
      by_cases h2 : b.toNat < 128
      · simp [charsStraddle, h2]
      · simp [charsStraddle, h2]
  | cons a x ih =>
    intro y hx hy
    cases y with
    | nil =>
      have ha : a ≠ 0 := fun h => hx (h ▸ List.mem_cons_self)
      have h := charValue_lt ha
      have hpos : ¬ a.toNat < (0 : UInt8).toNat := Nat.not_lt_zero _
      rw [iff_false_right hpos] at h
      rw [iff_false_right (List.not_lt_nil (a :: x))]
      refine h.trans ?_
      by_cases h2 : a.toNat < 128
      · simp [charsStraddle, h2]
      · simp [charsStraddle, h2]
    | cons b y =>
      rw [List.cons_lt_cons_iff, cmpBy, charsStraddle]
      by_cases hab : a = b
      · subst hab
        rw [if_pos rfl, if_pos rfl, ← ih y (fun h => hx (List.mem_cons_of_mem _ h))
          fun h => hy (List.mem_cons_of_mem _ h)]
        have hirr : ¬ a < a := UInt8.lt_irrefl a
        simp only [hirr, false_or, true_and]
      · rw [if_neg hab, if_neg hab, ← charValue_lt hab, UInt8.lt_iff_toNat_lt]
        simp only [hab, false_and, or_false]

/-! ## the loops -/

structure Compared (f : UInt8 → Int) (l l' : List UInt8) (k : Nat) : Prop where
  le : k ≤ l.length
  le' : k ≤ l'.length
  eq : cmpBy f l l' = cmpBy f (l.drop k) (l'.drop k)

theorem Compared.zero : Compared f l l' 0 := ⟨Nat.zero_le _, Nat.zero_le _, rfl⟩

theorem Compared.head (h : Compared f l l' k) (h0 : 0 ∉ l) (h0' : 0 ∉ l') {c c' : UInt8}
    (hc : (l.drop k).headD 0 = c) (hc' : (l'.drop k).headD 0 = c') :
    (c ≠ c' ∧ cmpBy f l l' = f c - f c') ∨ (c = 0 ∧ c' = 0 ∧ cmpBy f l l' = 0) ∨
      (c = c' ∧ c ≠ 0 ∧ Compared f l l' (k + 1)) := by
  subst hc hc'
  have hd : 0 ∉ l.drop k := fun hm => h0 (List.mem_of_mem_drop hm)
  have hd' : 0 ∉ l'.drop k := fun hm => h0' (List.mem_of_mem_drop hm)
  rcases cmpBy_head (f := f) hd hd' with ⟨hne, heq⟩ | ⟨hx, hy, heq⟩ | ⟨hcc, hc, hx, hy, heq⟩
  · exact Or.inl ⟨hne, h.eq.trans heq⟩
  · exact Or.inr (Or.inl ⟨by rw [hx]; rfl, by rw [hy]; rfl, h.eq.trans heq⟩)
  · refine Or.inr (Or.inr ⟨hcc, hc, ?_, ?_, ?_⟩)
    · by_contra hlt
      exact hx (List.drop_eq_nil_of_le (by omega))
    · by_contra hlt
      exact hy (List.drop_eq_nil_of_le (by omega))
    · rw [h.eq, heq, List.tail_drop, List.tail_drop]

theorem strcmp_eq {a b : Nat} (ha : StrAt μ a l) (hb : StrAt μ b l') (hfuel : l.length + 1 < fuel) :
    strcmp fuel μ a b = some (cmpBy charValue l l') := by
  have hfa := ha.field
  have hfb := hb.field
  apply Yields.eq
  apply forever_yields (fun x => ∃ k, x = (a + k, b + k) ∧ Compared charValue l l' k)
    (fun x => a + l.length + 1 - x.1)
  · intro x ⟨k, hx, h⟩
    subst hx
    have hle := h.le
    apply Runs.bind (Runs.access (hfa.headD h.le (Nat.lt_succ_of_le h.le)) rfl)
    intro c hc
    apply Runs.bind (Runs.access (hfb.headD h.le' (Nat.lt_succ_of_le h.le')) rfl)
    intro c' hc'
    rcases h.head ha.no_nul hb.no_nul hc hc' with ⟨hne, heq⟩ | ⟨h0, h0', heq⟩ | ⟨hcc, h0, h'⟩
    · have hv : charValue c - charValue c' ≠ 0 :=
        fun he => hne (charValue_inj (Int.sub_eq_zero.mp he))
      rw [if_pos hv]
      exact Runs.value heq.symm
    · subst h0 h0'
      rw [if_neg (not_not_intro (Int.sub_self _)), if_neg fun h => h.1 rfl]
      exact Runs.value heq.symm
    · subst hcc
      rw [if_neg (not_not_intro (Int.sub_self _)), if_pos ⟨h0, h0⟩]
      refine Runs.ok ⟨⟨k + 1, rfl, h'⟩, ?_⟩
      show a + l.length + 1 - (a + k + 1) < a + l.length + 1 - (a + k)
      omega
  · exact ⟨0, rfl, Compared.zero⟩
  · show a + l.length + 1 - a < fuel
    omega

structure ComparedRegs (s1 s2 : Nat) (l l' : List UInt8) (k : Nat) (r : CmpRegs) : Prop where
  s1 : r.s1 = s1 + k
  s2 : r.s2 = s2 + k
  c : r.c1 = r.c2
  chars : Compared byteValue l l' k

theorem cmpChar_runs (hf : FieldAt μ s1 n l) (hf' : FieldAt μ s2 n l') :
    ∀ k r, k < n → ComparedRegs s1 s2 l l' k r → Runs (cmpChar μ r)
      (ComparedRegs s1 s2 l l' (k + 1)) (fun a => a = .ret (cmpBy byteValue l l')) := by
  intro k r hn h
  have hread := hf.headD h.chars.le hn
  have hread' := hf'.headD h.chars.le' hn
  rw [← h.s1] at hread
  rw [← h.s2] at hread'
  apply Runs.bind (Runs.access hread rfl)
  intro c hc
  apply Runs.bind (Runs.access hread' rfl)
  intro c' hc'
  rcases h.chars.head hf.no_nul hf'.no_nul hc hc' with ⟨hne, heq⟩ | ⟨h0, h0', heq⟩ | ⟨hcc, h0, h'⟩
  · rw [if_pos (Or.inr hne)]
    exact Runs.value (congrArg CmpExit.ret heq.symm)
  · rw [if_pos (Or.inl h0)]
    subst h0 h0'
    exact Runs.value (congrArg CmpExit.ret (heq.trans (Int.sub_self _).symm).symm)
  · rw [if_neg (not_or.mpr ⟨h0, not_not_intro hcc⟩)]
    exact Runs.ok ⟨by rw [h.s1]; rfl, by rw [h.s2]; rfl, hcc, h'⟩

theorem cmpRest_yields (hf : FieldAt μ s1 n l) (hf' : FieldAt μ s2 n l') {r : CmpRegs}
    (h : ComparedRegs s1 s2 l l' k r) (hk : k ≤ n) (hfuel : n < fuel) :
    Yields (cmpRest fuel μ r (n - k)) fun v => v = cmpBy byteValue l l' := by
  apply Yields.bind (counted_yields (cmpChar_runs hf hf') h hk hfuel)
  intro e he
  rcases he with rfl | ⟨r', rfl, h'⟩
  · exact Yields.some rfl
  · apply Yields.some
    have hlen : l.length = n := Nat.le_antisymm hf.le h'.chars.le
    have hlen' : l'.length = n := Nat.le_antisymm hf'.le h'.chars.le'
    rw [h'.chars.eq, List.drop_of_length_le (Nat.le_of_eq hlen),
      List.drop_of_length_le (Nat.le_of_eq hlen'), CmpRegs.diff, h'.c, Int.sub_self]
    rfl

theorem strncmp_eq (hf : FieldAt μ s1 n l) (hf' : FieldAt μ s2 n l') (hfuel : n < fuel) :
    strncmp fuel μ s1 s2 n = some (cmpBy byteValue l l') := by
  have h : ComparedRegs s1 s2 l l' 0 ⟨s1, s2, 0, 0⟩ := ⟨rfl, rfl, rfl, Compared.zero⟩
  apply Yields.eq
  unfold strncmp
  by_cases h4 : n ≥ 4
  · rw [if_pos h4]
    apply Yields.bind (unrolled_yields (cmpChar_runs hf hf') h h4 hfuel)
    intro e he
    rcases he with rfl | ⟨r, rfl, h'⟩
    · exact Yields.some rfl
    · have hrest : n &&& 3 = n - (n - n % 4) := by
        rw [and_three]
        omega
      show Yields (cmpRest fuel μ r (n &&& 3)) _
      rw [hrest]
      exact cmpRest_yields hf hf' h' (Nat.sub_le _ _) hfuel
  · rw [if_neg h4]
    exact cmpRest_yields hf hf' (k := 0) h (Nat.zero_le _) hfuel

/-- **Comparisons.**  For two strings anywhere, `strncmp` tells whether they are equal in their
first `n` characters and, by its sign, which one comes first lexicographically; `strcmp` tells
whether they are equal, and which one comes first exactly if the first two characters that differ do
not lie on both sides of 128 -/
theorem strcmp_strncmp (ha : StrAt μ s1 l) (hb : StrAt μ s2 l') (n : Nat)
    (hfuel : l.length + 1 < fuel) (hn : n < fuel) :
    ∃ r q, strcmp fuel μ s1 s2 = some r ∧ strncmp fuel μ s1 s2 n = some q ∧
      (r = 0 ↔ l = l') ∧ ((r < 0 ↔ l < l') ↔ charsStraddle l l' = false) ∧
      (q = 0 ↔ l.take n = l'.take n) ∧ (q < 0 ↔ l.take n < l'.take n) := by
  have hf := ha.fieldAt n
  have hf' := hb.fieldAt n
  exact ⟨_, _, strcmp_eq ha hb hfuel, strncmp_eq hf hf' hn,
    cmpBy_eq_zero (fun _ _ => charValue_inj) l l' ha.no_nul hb.no_nul,
    cmpBy_charValue_neg l l' ha.no_nul hb.no_nul,
    cmpBy_eq_zero (fun _ _ => byteValue_inj) _ _ hf.no_nul hf'.no_nul,
    cmpBy_byteValue_neg _ _ hf'.no_nul⟩

/-- `a`, and `a` with the character 200 behind it -/
def straddling : Space := fun a => [97, 0, 97, 200, 0][a]?

def straddlingA : List UInt8 := [97]

def straddlingB : List UInt8 := [97, 200]

theorem strcmp_strncmp_straddling : ∃ r q, strcmp 6 straddling 0 2 = some r ∧
    strncmp 6 straddling 0 2 5 = some q ∧ (r = 0 ↔ straddlingA = straddlingB) ∧
      ((r < 0 ↔ straddlingA < straddlingB) ↔ charsStraddle straddlingA straddlingB = false) ∧
      (q = 0 ↔ straddlingA.take 5 = straddlingB.take 5) ∧
      (q < 0 ↔ straddlingA.take 5 < straddlingB.take 5) := by
  have ha : StrAt straddling 0 straddlingA := by
    refine ⟨by decide, ?_⟩
    unfold Holds
    decide
  have hb : StrAt straddling 2 straddlingB := by
    refine ⟨by decide, ?_⟩
    unfold Holds
    decide
  exact strcmp_strncmp ha hb 5 (show straddlingA.length + 1 < 6 by decide) (show 5 < 6 by decide)

end XCalls
