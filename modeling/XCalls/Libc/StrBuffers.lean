import XCalls.Lib.EventSys
import XCalls.Libc.StrCopy

/-!
# Strings in arrays

Calls of the copying functions on `char` arrays that do not overlap.

* `Buffers`       the arrays;
* `strSpec`       a call on the contents of the arrays, `none` where it is undefined;
* `strMem`        the call on the memory;
* `string_calls_refine`   every run of calls leaves exactly the bytes in the arrays that it should, a
                  string that is cut and has no NUL included, and changes nothing outside of them.
-/

namespace XCalls
open While Space EventSys
open Memory (Apart)

/-! ## the calls -/

structure Buffers (ι : Type) where
  base : ι → Nat
  size : ι → Nat

/-- the arrays are apart, and none is at address 0 -/
structure Buffers.Ok {ι : Type} (B : Buffers ι) : Prop where
  pos : ∀ i, 0 < B.base i
  apart : ∀ i j, i ≠ j → Apart (B.base i) (B.size i) (B.base j) (B.size j)

inductive StrCall (ι : Type) where
  | strcpy (dest src : ι)
  | strcat (dest src : ι)
  | strncpy (s1 s2 : ι) (n : Nat)
  | strncat (s1 s2 : ι) (n : Nat)

/-- the string that the first `n` bytes hold, with or without a NUL -/
def fieldOf (n : Nat) (c : List UInt8) : List UInt8 := (c.take n).takeWhile (· ≠ 0)

def strOf (c : List UInt8) : List UInt8 := fieldOf c.length c

/-- `t` is written at the offset `off` -/
def splice (c : List UInt8) (off : Nat) (t : List UInt8) : List UInt8 :=
  c.take off ++ (t ++ c.drop (off + t.length))

section
variable {ι : Type} [DecidableEq ι]

/-- `t` is written to the array `i`, if it fits -/
def place (v : ι → List UInt8) (i : ι) (off : Nat) (t : List UInt8) : Option (ι → List UInt8) :=
  if off + t.length ≤ (v i).length then some (Function.update v i (splice (v i) off t)) else none

/-- there are two arrays, there is a NUL where the call looks for one, and the target has room -/
def strSpec (v : ι → List UInt8) : StrCall ι → Option (ι → List UInt8)
  | .strcpy dest src =>
    if dest ≠ src ∧ 0 ∈ v src then place v dest 0 (strOf (v src) ++ [0]) else none
  | .strcat dest src =>
    if dest ≠ src ∧ 0 ∈ v src ∧ 0 ∈ v dest then
      place v dest (strOf (v dest)).length (strOf (v src) ++ [0])
    else none
  | .strncpy s1 s2 n =>
    if s1 ≠ s2 ∧ (0 ∈ v s2 ∨ n ≤ (v s2).length) then place v s1 0 (padded n (fieldOf n (v s2)))
    else none
  | .strncat s1 s2 n =>
    if s1 ≠ s2 ∧ (0 ∈ v s2 ∨ n ≤ (v s2).length) ∧ 0 ∈ v s1 then
      place v s1 (strOf (v s1)).length (fieldOf n (v s2) ++ [0])
    else none

/-- the call on the memory; `fuel` is for the strings -/
def strMem (fuel : Nat) (μ : Space) : StrCall Nat → Option Space
  | .strcpy dest src => strcpy (fuel + 1) μ dest src
  | .strcat dest src => strcat (fuel + 1) μ dest src
  | .strncpy s1 s2 n => strncpy (n + 1) μ s1 s2 n
  | .strncat s1 s2 n => strncat (fuel + n + 1) μ s1 s2 n

/-- the call with the addresses of the arrays -/
def StrCall.at (B : Buffers ι) : StrCall ι → StrCall Nat
  | .strcpy dest src => .strcpy (B.base dest) (B.base src)
  | .strcat dest src => .strcat (B.base dest) (B.base src)
  | .strncpy s1 s2 n => .strncpy (B.base s1) (B.base s2) n
  | .strncat s1 s2 n => .strncat (B.base s1) (B.base s2) n

/-- the arrays of `μ` hold `v`; anywhere else `μ` is as `μ₀` -/
structure Contains (B : Buffers ι) (μ₀ : Space) (v : ι → List UInt8) (μ : Space) : Prop where
  length : ∀ i, (v i).length = B.size i
  holds : ∀ i, Holds μ (B.base i) (v i)
  outside : ∀ a, (∀ i, a < B.base i ∨ B.base i + B.size i ≤ a) → μ a = μ₀ a

/-! ## strings in a list of bytes -/

variable {B : Buffers ι} {μ₀ μ : Space} {v v' : ι → List UInt8} {c t : List UInt8} {n p off : Nat}

omit [DecidableEq ι] in
theorem not_mem_takeWhile (c : List UInt8) : 0 ∉ c.takeWhile (· ≠ 0) :=
  fun h => absurd (List.mem_takeWhile_imp h) (by decide)

theorem takeWhile_nul (h : 0 ∈ c) : ∃ u, c = c.takeWhile (· ≠ 0) ++ 0 :: u := by
  induction c with
  | nil => cases h
  | cons b c ih =>
    by_cases hb : b = 0
    · subst hb
      exact ⟨c, rfl⟩
    · obtain ⟨u, hu⟩ := ih ((List.mem_cons.mp h).resolve_left fun he => hb he.symm)
      refine ⟨u, ?_⟩
      rw [List.takeWhile_cons_of_pos (p := fun x => decide (x ≠ 0)) (decide_eq_true hb),
        List.cons_append, ← hu]

theorem takeWhile_all (h : 0 ∉ c) : c.takeWhile (· ≠ 0) = c := by
  rw [List.takeWhile_eq_self_iff]
  intro b hb
  exact decide_eq_true fun he => h (he ▸ hb)

/-- a field in an array, which is not left when it is read -/
theorem fieldAt_fieldOf (h : Holds μ p c) (hn : 0 ∈ c ∨ n ≤ c.length) :
    FieldAt μ p n (fieldOf n c) ∧ min n ((fieldOf n c).length + 1) ≤ c.length := by
  have htake : c = c.take n ++ c.drop n := (List.take_append_drop n c).symm
  have hlen : (c.take n).length = min n c.length := List.length_take
  have hhead : Holds μ p (c.take n) := by
    rw [htake, holds_append] at h
    exact h.1
  by_cases h0 : 0 ∈ c.take n
  · obtain ⟨u, hu⟩ := takeWhile_nul h0
    change c.take n = fieldOf n c ++ 0 :: u at hu
    rw [hu] at hhead hlen
    rw [List.length_append, List.length_cons] at hlen
    rw [holds_append] at hhead
    refine ⟨⟨not_mem_takeWhile _, hhead.1, Or.inr ⟨by omega, ?_⟩⟩, by omega⟩
    exact (hhead.2 0 (Nat.succ_pos _)).trans rfl
  · have hall : fieldOf n c = c.take n := takeWhile_all h0
    have hle : n ≤ c.length := by
      rcases hn with hmem | hle
      · by_contra hlt
        exact h0 (by rw [List.take_of_length_le (by omega)]; exact hmem)
      · exact hle
    rw [hall]
    exact ⟨⟨h0, hhead, Or.inl (by omega)⟩, by omega⟩

theorem strAt_strOf (h : Holds μ p c) (h0 : 0 ∈ c) :
    StrAt μ p (strOf c) ∧ (strOf c).length + 1 ≤ c.length := by
  obtain ⟨u, hu⟩ := takeWhile_nul h0
  have hstr : strOf c = c.takeWhile (· ≠ 0) := by rw [strOf, fieldOf, List.take_length]
  rw [← hstr] at hu
  have hlen := congrArg List.length hu
  rw [List.length_append, List.length_cons] at hlen
  rw [hu, ← List.singleton_append, ← List.append_assoc, holds_append] at h
  exact ⟨⟨hstr ▸ not_mem_takeWhile c, h.1⟩, by omega⟩

theorem holds_splice (h : Holds μ p c) (hoff : off + t.length ≤ c.length) :
    Holds (write μ (p + off) t) p (splice c off t) := by
  have hlen : (c.take off).length = off := List.length_take_of_le (by omega)
  have hsplit : c = c.take off ++ (((c.drop off).take t.length) ++ c.drop (off + t.length)) := by
    rw [← List.drop_drop, List.take_append_drop, List.take_append_drop]
  have hmid : ((c.drop off).take t.length).length = t.length := by
    apply List.length_take_of_le
    rw [List.length_drop]
    omega
  rw [hsplit, holds_append, holds_append, hlen, hmid] at h
  rw [splice, holds_append, holds_append, hlen]
  refine ⟨h.1.write (Or.inr ?_), holds_write, h.2.2.write (Or.inl (Nat.le_refl _))⟩
  rw [hlen]

/-! ## one call -/

omit [DecidableEq ι] in
theorem Contains.mapped (h : Contains B μ₀ v μ) (i : ι) : Mapped μ (B.base i) (B.size i) := by
  rw [← h.length i]
  exact (h.holds i).mapped

/-- what is written to an array that has room for it -/
theorem Contains.place (hB : B.Ok) (h : Contains B μ₀ v μ) {i : ι}
    (hp : place v i off t = some v') : off + t.length ≤ B.size i ∧
      Contains B μ₀ v' (write μ (B.base i + off) t) := by
  unfold XCalls.place at hp
  split at hp
  · rename_i hfit
    cases hp
    have hroom : off + t.length ≤ B.size i := by rw [← h.length i]; exact hfit
    refine ⟨hroom, ?_, ?_, ?_⟩
    · intro j
      by_cases hj : j = i
      · subst hj
        rw [Function.update_self, ← h.length j]
        simp only [splice, List.length_append, List.length_take, List.length_drop]
        omega
      · rw [Function.update_of_ne hj, h.length j]
    · intro j
      by_cases hj : j = i
      · subst hj
        rw [Function.update_self]
        exact holds_splice (h.holds j) hfit
      · rw [Function.update_of_ne hj]
        apply (h.holds j).write
        have hap := hB.apart i j (Ne.symm hj)
        rw [h.length j]
        unfold Apart at hap ⊢
        omega
    · intro a ha
      rw [← h.outside a ha]
      rcases ha i with hlt | hle
      · exact write_of_lt (by omega)
      · exact write_of_le (by omega)
  · cases hp

omit [DecidableEq ι] in
theorem Buffers.Ok.apart_of (hB : B.Ok) (off : Nat) {i j : ι} (hij : i ≠ j) {k m : Nat}
    (hk : off + k ≤ B.size i) (hm : m ≤ B.size j) :
    Apart (B.base i + off) k (B.base j) m := by
  have hap := hB.apart i j hij
  unfold Apart at hap ⊢
  omega

theorem strCall_refines {fuel : Nat} (hB : B.Ok) (hfuel : ∀ i, B.size i < fuel)
    (h : Contains B μ₀ v μ) (e : StrCall ι) (he : strSpec v e = some v') :
    ∃ μ', strMem fuel μ (e.at B) = some μ' ∧ Contains B μ₀ v' μ' := by
  cases e with
  | strcpy dest src =>
    simp only [strSpec] at he
    split at he
    · rename_i hc
      obtain ⟨hs, hlen⟩ := strAt_strOf (h.holds src) hc.2
      obtain ⟨hroom, h'⟩ := h.place hB he
      rw [h.length src] at hlen
      have hsize := hfuel src
      rw [Nat.zero_add, List.length_append, List.length_singleton] at hroom
      refine ⟨_, strcpy_eq (hB.pos dest) hs ((h.mapped dest).of_le hroom) ?_ (by omega), h'⟩
      exact hB.apart_of 0 hc.1 (by omega) hlen
    · cases he
  | strcat dest src =>
    simp only [strSpec] at he
    split at he
    · rename_i hc
      obtain ⟨hs, hlen⟩ := strAt_strOf (h.holds src) hc.2.1
      obtain ⟨ha, hlena⟩ := strAt_strOf (h.holds dest) hc.2.2
      obtain ⟨hroom, h'⟩ := h.place hB he
      rw [h.length] at hlen hlena
      have hsize := hfuel src
      have hsizea := hfuel dest
      rw [List.length_append, List.length_singleton] at hroom
      refine ⟨_, (strcat_eq (hB.pos dest) ha hs ((h.mapped dest).sub hroom) ?_ (by omega)
        (by omega)).1, h'⟩
      exact hB.apart_of _ hc.1 hroom hlen
    · cases he
  | strncpy s1 s2 n =>
    simp only [strSpec] at he
    split at he
    · rename_i hc
      obtain ⟨hf, hlen⟩ := fieldAt_fieldOf (h.holds s2) hc.2
      obtain ⟨hroom, h'⟩ := h.place hB he
      rw [h.length] at hlen
      rw [Nat.zero_add, length_padded hf.le] at hroom
      refine ⟨_, strncpy_eq (hB.pos s1) ((h.mapped s1).of_le hroom) hf ?_ (Nat.lt_succ_self n), h'⟩
      exact hB.apart_of 0 hc.1 (by omega) hlen
    · cases he
  | strncat s1 s2 n =>
    simp only [strSpec] at he
    split at he
    · rename_i hc
      obtain ⟨hf, hlen⟩ := fieldAt_fieldOf (h.holds s2) hc.2.1
      obtain ⟨ha, hlena⟩ := strAt_strOf (h.holds s1) hc.2.2
      obtain ⟨hroom, h'⟩ := h.place hB he
      rw [h.length] at hlen hlena
      have hsizea := hfuel s1
      rw [List.length_append, List.length_singleton] at hroom
      refine ⟨_, (strncat_eq (hB.pos s1) ha hf ((h.mapped s1).sub hroom) ?_ (by omega)
        (by omega)).1, h'⟩
      exact hB.apart_of _ hc.1 hroom hlen
    · cases he

/-! ## runs -/

/-- **Every run of string calls does to the memory what it does to the contents of the arrays**, and
nothing else -/
theorem string_calls_refine {fuel : Nat} (hB : B.Ok) (hfuel : ∀ i, B.size i < fuel)
    (h : Contains B μ₀ v μ₀) (es : List (StrCall ι)) (hrun : run strSpec v es = some v') :
    ∃ μ, run (strMem fuel) μ₀ (es.map (StrCall.at B)) = some μ ∧ Contains B μ₀ v' μ :=
  run_simulates (R := Contains B μ₀) (fun _ _ e _ hR he => strCall_refines hB hfuel hR e he) es h
    hrun

end

/-- two arrays of eight bytes, with the strings `ab` and `c` -/
def twoArrays : Buffers Bool := ⟨fun b => cond b 24 8, fun _ => 8⟩

def twoStrings (b : Bool) : List UInt8 := cond b [99, 0, 7, 7, 7, 7, 7, 7] [97, 98, 0, 7, 7, 7, 7, 7]

def twoArraysMem : Space := fun a =>
  if a < 16 then (if 8 ≤ a then (twoStrings false)[a - 8]? else some 1)
  else if 24 ≤ a then (twoStrings true)[a - 24]? else none

/-- the last call leaves no NUL -/
def twoArraysCalls : List (StrCall Bool) :=
  [.strcat true false, .strncat true false 1, .strcpy false true, .strncpy true false 8,
    .strncpy false true 2, .strncat false true 3]

theorem twoArraysMem_contains : Contains twoArrays twoArraysMem twoStrings twoArraysMem := by
  refine ⟨?_, ?_, fun _ _ => rfl⟩
  · intro b
    cases b <;> rfl
  · intro b
    unfold Holds
    cases b <;> decide

theorem string_calls_refine_two : ∃ v' μ,
    run (strMem 9) twoArraysMem (twoArraysCalls.map (StrCall.at twoArrays)) = some μ ∧
      Contains twoArrays twoArraysMem v' μ ∧
      v' true = [99, 97, 98, 97, 0, 0, 0, 0] ∧ v' false = [99, 97, 98, 97, 99, 97, 98, 0] := by
  have hall : (run strSpec twoStrings twoArraysCalls).map (fun v' => (v' true, v' false)) =
      some ([99, 97, 98, 97, 0, 0, 0, 0], [99, 97, 98, 97, 99, 97, 98, 0]) := by decide +kernel
  obtain ⟨v', hrun, hv⟩ := Option.map_eq_some_iff.mp hall
  have hB : twoArrays.Ok := by
    refine ⟨?_, ?_⟩
    · intro b
      cases b <;> decide
    · intro b b' hne
      unfold Apart
      cases b <;> cases b' <;> first | exact absurd rfl hne | decide
  have hfuel : ∀ b, twoArrays.size b < 9 := fun _ => Nat.lt_succ_self 8
  obtain ⟨μ, hμ, hc⟩ := string_calls_refine hB hfuel twoArraysMem_contains twoArraysCalls
    hrun
  exact ⟨v', μ, hμ, hc, congrArg Prod.fst hv, congrArg Prod.snd hv⟩

end XCalls
