import XCalls.Lib.Memory

/-!
# Address spaces: bytes, words and strings, where some addresses are not mapped

* `write`, `put`     a run of bytes; one byte, `none` if the address is not mapped;
* `Holds`, `Mapped`    what is at an address; that something is;
* `StrAt`, `FieldAt`   a string with its NUL; a string in a field of `n` bytes, where the NUL may be
                       missing;
* `loadWord`           a word of `W` bytes, the lowest byte first; `loadWord_eq_some`: the word is
                       its bytes (`byte`);
* `unchanged_of_zero`  a word to which a pattern with holes is added keeps a hole bit if one of its
                       bytes is zero.
-/

/-- the byte at every mapped address -/
abbrev Space := Nat → Option UInt8

namespace Space
open Memory (Apart)

def write (μ : Space) (p : Nat) (l : List UInt8) : Space :=
  fun a => if p ≤ a ∧ a < p + l.length then l[a - p]? else μ a

def put (μ : Space) (p : Nat) (b : UInt8) : Option Space :=
  if (μ p).isSome then some (write μ p [b]) else none

def Holds (μ : Space) (p : Nat) (l : List UInt8) : Prop := ∀ i < l.length, μ (p + i) = l[i]?

def Mapped (μ : Space) (p n : Nat) : Prop := ∀ i < n, (μ (p + i)).isSome

variable {μ ν : Space} {p q n k : Nat} {l l' s : List UInt8} {a : Nat} {b : UInt8}

/-! ## writes -/

theorem write_nil : write μ p [] = μ := by
  funext a
  exact if_neg (by rw [List.length_nil]; omega)

theorem write_of_lt (h : a < p) : write μ p l a = μ a := if_neg (by omega)

theorem write_of_le (h : p + l.length ≤ a) : write μ p l a = μ a := if_neg (by omega)

theorem write_at {i : Nat} (h : i < l.length) : write μ p l (p + i) = l[i]? := by
  rw [write, if_pos (by omega), Nat.add_sub_cancel_left]

theorem write_write : write (write μ p l) (p + l.length) l' = write μ p (l ++ l') := by
  funext a
  simp only [write, List.length_append]
  by_cases h1 : p + l.length ≤ a ∧ a < p + l.length + l'.length
  · rw [if_pos h1, if_pos (by omega), List.getElem?_append_right (by omega)]
    congr 1
    omega
  · rw [if_neg h1]
    by_cases h2 : p ≤ a ∧ a < p + l.length
    · rw [if_pos h2, if_pos (by omega), List.getElem?_append_left (by omega)]
    · rw [if_neg h2, if_neg (by omega)]

theorem isSome_write (h : Mapped μ p l.length) : (write μ p l a).isSome = (μ a).isSome := by
  unfold write
  split
  · rename_i hin
    have := h (a - p) (by omega)
    rw [Nat.add_sub_cancel' hin.1] at this
    rw [this, List.getElem?_eq_getElem (by omega)]
    rfl
  · rfl

theorem mapped_write (h : Mapped μ p l.length) : Mapped (write μ p l) q n ↔ Mapped μ q n := by
  unfold Mapped
  simp only [isSome_write h]

theorem Mapped.sub (h : Mapped μ p n) (hi : a + k ≤ n) : Mapped μ (p + a) k := by
  intro i hik
  rw [Nat.add_assoc]
  exact h (a + i) (by omega)

theorem Mapped.of_le (h : Mapped μ p n) (hk : k ≤ n) : Mapped μ p k :=
  fun i hi => h i (Nat.lt_of_lt_of_le hi hk)

theorem put_eq {i : Nat} (h : Mapped μ p n) (hi : i < n) :
    put μ (p + i) b = some (write μ (p + i) [b]) := if_pos (h i hi)

theorem put_write (h : Mapped μ p n) (hl : l.length < n) :
    put (write μ p l) (p + l.length) b = some (write μ p (l ++ [b])) := by
  have hm : Mapped (write μ p l) p n := (mapped_write (h.of_le (Nat.le_of_lt hl))).mpr h
  rw [put_eq hm hl, write_write]

theorem put_take (h : Mapped μ p l.length) (hb : l[k]? = some b) :
    put (write μ p (l.take k)) (p + k) b = some (write μ p (l.take (k + 1))) := by
  obtain ⟨hk, hget⟩ := List.getElem?_eq_some_iff.mp hb
  have hlen : (l.take k).length = k := List.length_take_of_le (Nat.le_of_lt hk)
  have hput := put_write (l := l.take k) (b := b) h (by omega)
  rw [hlen] at hput
  rw [hput, ← hget, List.take_append_getElem hk]

theorem write_same (h : μ p = some b) : write μ p [b] = μ := by
  funext a
  unfold write
  split
  · rename_i hin
    have ha : a = p := by
      rw [List.length_singleton] at hin
      omega
    rw [ha, Nat.sub_self, h]
    rfl
  · rfl

/-! ## what an address holds -/

theorem Holds.mapped (h : Holds μ p l) : Mapped μ p l.length := by
  intro i hi
  rw [h i hi, List.getElem?_eq_getElem hi]
  rfl

theorem holds_append : Holds μ p (l ++ l') ↔ Holds μ p l ∧ Holds μ (p + l.length) l' := by
  constructor
  · intro h
    constructor
    · intro i hi
      rw [h i (by rw [List.length_append]; omega), List.getElem?_append_left hi]
    · intro i hi
      rw [Nat.add_assoc, h (l.length + i) (by rw [List.length_append]; omega),
        List.getElem?_append_right (Nat.le_add_right _ _), Nat.add_sub_cancel_left]
  · intro ⟨h1, h2⟩ i hi
    rw [List.length_append] at hi
    by_cases hlt : i < l.length
    · rw [h1 i hlt, List.getElem?_append_left hlt]
    · have h := h2 (i - l.length) (by omega)
      rw [Nat.add_assoc, Nat.add_sub_cancel' (by omega)] at h
      rw [h, List.getElem?_append_right (by omega)]

theorem holds_singleton : Holds μ p [b] ↔ μ p = some b := by
  constructor
  · intro h
    exact h 0 Nat.zero_lt_one
  · intro h i hi
    have h0 : i = 0 := Nat.lt_one_iff.mp hi
    rw [h0]
    exact h

theorem holds_write : Holds (write μ p l) p l := fun _ hi => write_at hi

theorem Holds.congr (h : Holds μ p l) (hc : ∀ i < l.length, ν (p + i) = μ (p + i)) : Holds ν p l :=
  fun i hi => (hc i hi).trans (h i hi)

theorem write_of_apart {i : Nat} (h : Apart p l.length q n) (hi : i < n) :
    write μ p l (q + i) = μ (q + i) := by
  rcases h with h | h
  · exact write_of_le (by omega)
  · exact write_of_lt (by omega)

theorem Holds.write (h : Holds μ q s) (ha : Apart p l.length q s.length) :
    Holds (Space.write μ p l) q s := h.congr fun _ hi => write_of_apart ha hi

/-! ## strings -/

/-- the string `s` at `p`, with its NUL -/
structure StrAt (μ : Space) (p : Nat) (s : List UInt8) : Prop where
  no_nul : 0 ∉ s
  holds : Holds μ p (s ++ [0])

/-- the string `s` at `p`, which ends with a NUL or at `n` bytes -/
structure FieldAt (μ : Space) (p n : Nat) (s : List UInt8) : Prop where
  no_nul : 0 ∉ s
  holds : Holds μ p s
  ends : s.length = n ∨ s.length < n ∧ μ (p + s.length) = some 0

theorem StrAt.nul (h : StrAt μ p s) : μ (p + s.length) = some 0 :=
  holds_singleton.mp (holds_append.mp h.holds).2

theorem StrAt.body (h : StrAt μ p s) : Holds μ p s := (holds_append.mp h.holds).1

theorem StrAt.ne_zero (h : StrAt μ p s) {i : Nat} (hi : s[i]? = some b) : b ≠ 0 := by
  intro hb
  rw [hb] at hi
  exact h.no_nul (List.mem_of_getElem? hi)

theorem FieldAt.ne_zero (h : FieldAt μ p n s) {i : Nat} (hi : s[i]? = some b) : b ≠ 0 := by
  intro hb
  rw [hb] at hi
  exact h.no_nul (List.mem_of_getElem? hi)

theorem FieldAt.le (h : FieldAt μ p n s) : s.length ≤ n := by
  rcases h.ends with h | h
  · exact Nat.le_of_eq h
  · exact Nat.le_of_lt h.1

theorem StrAt.fieldAt (h : StrAt μ p s) (n : Nat) : FieldAt μ p n (s.take n) := by
  refine ⟨fun h0 => h.no_nul (List.mem_of_mem_take h0), ?_, ?_⟩
  · intro i hi
    rw [List.length_take] at hi
    rw [h.body i (by omega), List.getElem?_take_of_lt (by omega)]
  · by_cases hn : n ≤ s.length
    · exact Or.inl (List.length_take_of_le hn)
    · rw [List.take_of_length_le (by omega)]
      exact Or.inr ⟨by omega, h.nul⟩

theorem StrAt.field (h : StrAt μ p s) : FieldAt μ p (s.length + 1) s := by
  have hf := h.fieldAt (s.length + 1)
  rw [List.take_of_length_le (Nat.le_succ _)] at hf
  exact hf

/-- the next character of a field, which may be its NUL -/
theorem FieldAt.get (h : FieldAt μ p n s) (hk : k ≤ s.length) (hn : k < n) :
    ∃ c, μ (p + k) = some c ∧ (c = 0 ↔ k = s.length) := by
  rcases Nat.lt_or_eq_of_le hk with hlt | rfl
  · refine ⟨s[k], by rw [h.holds k hlt, List.getElem?_eq_getElem hlt], ?_⟩
    constructor
    · intro hz
      exact absurd hz (h.ne_zero (List.getElem?_eq_getElem hlt))
    · intro he
      exact absurd he (Nat.ne_of_lt hlt)
  · rcases h.ends with he | ⟨-, hz⟩
    · exact absurd he (Nat.ne_of_lt hn)
    · exact ⟨0, hz, Iff.intro (fun _ => rfl) fun _ => rfl⟩

theorem FieldAt.headD (h : FieldAt μ p n s) (hk : k ≤ s.length) (hn : k < n) :
    μ (p + k) = some ((s.drop k).headD 0) := by
  rcases Nat.lt_or_eq_of_le hk with hlt | rfl
  · rw [h.holds k hlt, List.getElem?_eq_getElem hlt, List.drop_eq_getElem_cons hlt]
    rfl
  · rw [List.drop_length]
    rcases h.ends with he | ⟨-, hz⟩
    · exact absurd he (Nat.ne_of_lt hn)
    · exact hz

theorem StrAt.drop (hs : StrAt μ p s) (hk : k ≤ s.length) :
    StrAt μ (p + k) (s.drop k) := by
  refine ⟨fun h => hs.no_nul (List.mem_of_mem_drop h), ?_⟩
  have h : s ++ [0] = s.take k ++ (s.drop k ++ [0]) := by
    rw [← List.append_assoc, List.take_append_drop]
  have hholds := hs.holds
  rw [h, holds_append, List.length_take_of_le hk] at hholds
  exact hholds.2

/-! ## words -/

section
variable {W : Nat}

def byte (w : BitVec (8 * W)) (i : Nat) : UInt8 := ⟨w.extractLsb' (8 * i) 8⟩

def loadWord (μ : Space) (p : Nat) : (W : Nat) → Option (BitVec (8 * W))
  | 0 => some 0#0
  | W + 1 => do
    let lo ← μ p
    let hi ← loadWord μ (p + 1) W
    return hi ++ lo.toBitVec

theorem bit_byte (w : BitVec (8 * W)) (i : Nat) {j : Nat} (hj : j < 8) :
    (byte w i).toBitVec.getLsbD j = w.getLsbD (8 * i + j) := by
  rw [byte, BitVec.getLsbD_extractLsb', decide_eq_true hj, Bool.true_and]

theorem byte_ext {w w' : BitVec (8 * W)} (h : ∀ i < W, byte w i = byte w' i) : w = w' := by
  apply BitVec.eq_of_getLsbD_eq
  intro j hj
  have hb := congrArg (fun b => b.toBitVec.getLsbD (j % 8)) (h (j / 8) (by omega))
  simp only [bit_byte _ _ (Nat.mod_lt j (by decide : 0 < 8)), Nat.div_add_mod] at hb
  exact hb

theorem byte_zero_append (hi : BitVec (8 * W)) (lo : UInt8) :
    byte (W := W + 1) (hi ++ lo.toBitVec) 0 = lo := by
  apply UInt8.toBitVec_inj.mp
  apply BitVec.eq_of_getLsbD_eq
  intro j hj
  rw [bit_byte _ _ hj, BitVec.getLsbD_append, if_pos (by omega), Nat.mul_zero, Nat.zero_add]

theorem byte_succ_append (hi : BitVec (8 * W)) (lo : UInt8) (i : Nat) :
    byte (W := W + 1) (hi ++ lo.toBitVec) (i + 1) = byte hi i := by
  apply UInt8.toBitVec_inj.mp
  apply BitVec.eq_of_getLsbD_eq
  intro j hj
  rw [bit_byte _ _ hj, BitVec.getLsbD_append, if_neg (by omega), bit_byte _ _ hj]
  congr 1
  omega

theorem byte_high (w : BitVec (8 * (W + 1))) {i : Nat} (hi : i < W) :
    byte (w.extractLsb' 8 (8 * W)) i = byte w (i + 1) := by
  apply UInt8.toBitVec_inj.mp
  apply BitVec.eq_of_getLsbD_eq
  intro j hj
  rw [bit_byte _ _ hj, bit_byte _ _ hj, BitVec.getLsbD_extractLsb', decide_eq_true (by omega),
    Bool.true_and]
  congr 1
  omega

theorem high_append_byte (w : BitVec (8 * (W + 1))) :
    w.extractLsb' 8 (8 * W) ++ (byte w 0).toBitVec = w := by
  apply byte_ext (W := W + 1)
  intro i hi
  cases i with
  | zero => exact byte_zero_append _ _
  | succ i => rw [byte_succ_append, byte_high _ (by omega)]

theorem loadWord_eq_some {w : BitVec (8 * W)} :
    loadWord μ p W = some w ↔ ∀ i < W, μ (p + i) = some (byte w i) := by
  induction W generalizing p with
  | zero =>
    constructor
    · intro _ i hi
      exact absurd hi (Nat.not_lt_zero i)
    · intro _
      exact congrArg some (BitVec.eq_of_getLsbD_eq fun j hj => absurd hj (Nat.not_lt_zero j))
  | succ W ih =>
    constructor
    · intro h
      simp only [loadWord, Option.bind_eq_bind, Option.bind_eq_some_iff, Option.pure_def,
        Option.some.injEq] at h
      obtain ⟨lo, hlo, hi, hhi, rfl⟩ := h
      intro i hiW
      cases i with
      | zero => rw [byte_zero_append]; exact hlo
      | succ i =>
        rw [byte_succ_append, ← ih.mp hhi i (by omega), Nat.add_assoc, Nat.add_comm 1 i]
    · intro h
      have h0 : μ p = some (byte w 0) := h 0 (Nat.succ_pos W)
      have hrest : loadWord μ (p + 1) W = some (w.extractLsb' 8 (8 * W)) := by
        apply ih.mpr
        intro i hi
        rw [byte_high _ hi, ← h (i + 1) (by omega), Nat.add_assoc, Nat.add_comm 1 i]
      rw [loadWord, h0, Option.bind_eq_bind, Option.bind_some, hrest, Option.bind_eq_bind,
        Option.bind_some, high_append_byte]
      rfl

theorem loadWord_of_mapped (h : Mapped μ p W) : ∃ w, loadWord μ p W = some w := by
  induction W generalizing p with
  | zero => exact ⟨_, rfl⟩
  | succ W ih =>
    obtain ⟨lo, hlo⟩ := Option.isSome_iff_exists.mp (h 0 (Nat.succ_pos W))
    obtain ⟨hi, hhi⟩ := ih (p := p + 1) (h.sub (by omega))
    refine ⟨hi ++ lo.toBitVec, ?_⟩
    simp only [loadWord, Nat.add_zero] at hlo ⊢
    rw [hlo, hhi]
    rfl

/-! ## hole bits -/

/-- `m` has a hole at the bit `q`, and below it room for a carry from the bytes below byte `i` -/
structure HoleAt (m : BitVec (8 * W)) (i q : Nat) : Prop where
  lt : q < 8 * W
  le : 8 * i ≤ q
  ge : q ≤ 8 * i + 8
  room : m.toNat % 2 ^ q + 2 ^ (8 * i) ≤ 2 ^ q
  hole : m.toNat / 2 ^ q % 2 = 0

/-- the hole bits of `m` that adding `m` to `w` leaves as they are -/
def unchanged (m w : BitVec (8 * W)) : BitVec (8 * W) := ((w + m) ^^^ ~~~w) &&& ~~~m

theorem add_div_hole {L M i q : Nat} (hle : i ≤ q) (hz : L / 2 ^ i % 2 ^ (q - i) = 0)
    (hroom : M % 2 ^ q + 2 ^ i ≤ 2 ^ q) : (L + M) / 2 ^ q = L / 2 ^ q + M / 2 ^ q := by
  have hpow : 2 ^ q = 2 ^ i * 2 ^ (q - i) := by rw [← Nat.pow_add, Nat.add_sub_cancel' hle]
  have hmod : L % 2 ^ q = L % 2 ^ i := by rw [hpow, Nat.mod_mul, hz, Nat.mul_zero, Nat.add_zero]
  have hlt : L % 2 ^ i < 2 ^ i := Nat.mod_lt _ (Nat.two_pow_pos i)
  rw [Nat.add_div (Nat.two_pow_pos q), if_neg (by omega), Nat.add_zero]

theorem div_mod_of_byte {w : BitVec (8 * W)} {i n : Nat} (h : byte w i = 0) (hn : n ≤ 8) :
    w.toNat / 2 ^ (8 * i) % 2 ^ n = 0 := by
  have h8 : w.toNat / 2 ^ (8 * i) % 2 ^ 8 = 0 := by
    have hb : (w.extractLsb' (8 * i) 8).toNat = 0 := congrArg (fun b => b.toBitVec.toNat) h
    rw [BitVec.extractLsb'_toNat, Nat.shiftRight_eq_div_pow] at hb
    exact hb
  rw [← Nat.mod_mod_of_dvd _ (Nat.pow_dvd_pow 2 hn), h8, Nat.zero_mod]

theorem unchanged_of_zero {m w : BitVec (8 * W)} {i q : Nat} (hm : HoleAt m i q)
    (hz : byte w i = 0) : unchanged m w ≠ 0#(8 * W) := by
  intro h
  have hdiv := div_mod_of_byte hz (show q - 8 * i ≤ 8 by have := hm.ge; omega)
  have hbit : (w + m).getLsbD q = w.getLsbD q := by
    rw [BitVec.getLsbD, BitVec.toNat_add, Nat.testBit_mod_two_pow, decide_eq_true hm.lt,
      Bool.true_and, BitVec.getLsbD, Nat.testBit_eq_decide_div_mod_eq,
      Nat.testBit_eq_decide_div_mod_eq, add_div_hole hm.le hdiv hm.room, Nat.add_mod, hm.hole,
      Nat.add_zero, Nat.mod_mod]
  have hhole : m.getLsbD q = false := by
    rw [BitVec.getLsbD, Nat.testBit_eq_decide_div_mod_eq, hm.hole]
    rfl
  have hq := congrArg (fun b => b.getLsbD q) h
  simp only [unchanged, BitVec.getLsbD_and, BitVec.getLsbD_xor, BitVec.getLsbD_not, hbit, hhole,
    decide_eq_true hm.lt, BitVec.getLsbD_zero, Bool.true_and, Bool.not_false, Bool.and_true] at hq
  cases hw : w.getLsbD q with
  | false => rw [hw] at hq; cases hq
  | true => rw [hw] at hq; cases hq

end

end Space
