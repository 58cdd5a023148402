import Mathlib

/-!
# Passes over a list: one pass per key value

A loop that visits a list again and again, taking in pass `j` the elements whose key is `j`, takes
them in the order `passes key l k` (the first `k` passes).

* `mem_passes`       an element is taken in the first `k` passes iff its key is below `k`;
* `passes_pairwise`  keys never go down;
* `passes_filter`    the elements of one key keep the order of `l`;
* `passes_perm`      if every key is below `k`, the `k` passes take every element exactly once;
* `passes_length`    the `k` passes take as many elements as there are iff every key is below `k`.
-/

namespace Passes
variable {ε : Type}

def passes (key : ε → Int) (l : List ε) (k : Nat) : List ε :=
  (List.range k).flatMap fun (j : Nat) => l.filter fun e => key e = j

variable (key : ε → Int) (l : List ε)

theorem passes_zero : passes key l 0 = [] := rfl

theorem passes_succ (k : Nat) :
    passes key l (k + 1) = passes key l k ++ l.filter fun e => key e = k := by
  unfold passes
  rw [List.range_succ, List.flatMap_append, List.flatMap_singleton]

theorem mem_passes (k : Nat) (e : ε) :
    e ∈ passes key l k ↔ e ∈ l ∧ 0 ≤ key e ∧ key e < k := by
  induction k with
  | zero =>
    rw [passes_zero]
    constructor
    · intro h; cases h
    · rintro ⟨_, h0, h1⟩; omega
  | succ k ih =>
    rw [passes_succ, List.mem_append, ih, List.mem_filter, decide_eq_true_eq]
    constructor
    · rintro (⟨hl, h0, h1⟩ | ⟨hl, h⟩)
      · exact ⟨hl, h0, by omega⟩
      · exact ⟨hl, by omega, by omega⟩
    · rintro ⟨hl, h0, h1⟩
      rcases Int.lt_or_eq_of_le (show key e ≤ k by omega) with h | h
      · exact Or.inl ⟨hl, h0, h⟩
      · exact Or.inr ⟨hl, h⟩

theorem passes_pairwise (k : Nat) : (passes key l k).Pairwise fun a b => key a ≤ key b := by
  induction k with
  | zero => exact List.Pairwise.nil
  | succ k ih =>
    rw [passes_succ, List.pairwise_append]
    refine ⟨ih, ?_, ?_⟩
    · apply List.pairwise_of_forall_mem_list
      intro a ha b hb
      have h1 := (List.mem_filter.mp ha).2
      have h2 := (List.mem_filter.mp hb).2
      rw [decide_eq_true_eq] at h1 h2
      omega
    · intro a ha b hb
      have h1 := ((mem_passes key l k a).mp ha).2.2
      have h2 := (List.mem_filter.mp hb).2
      rw [decide_eq_true_eq] at h2
      omega

/-- elements with the key `z` keep their order -/
theorem passes_filter (k : Nat) (z : Int) :
    (passes key l k).filter (fun e => key e = z)
      = if 0 ≤ z ∧ z < k then l.filter (fun e => key e = z) else [] := by
  induction k with
  | zero =>
    rw [passes_zero, if_neg (by omega)]
    rfl
  | succ k ih =>
    rw [passes_succ, List.filter_append, ih, List.filter_filter]
    by_cases hz : z = k
    · subst hz
      rw [if_neg (by omega), if_pos (by omega), List.nil_append]
      congr 1
      funext e
      simp
    · have h0 : l.filter (fun e => decide (key e = z) && decide (key e = k)) = [] := by
        rw [List.filter_eq_nil_iff]
        intro e _ h
        simp only [Bool.and_eq_true, decide_eq_true_eq] at h
        omega
      rw [h0, List.append_nil]
      by_cases h : 0 ≤ z ∧ z < k
      · rw [if_pos h, if_pos (by omega)]
      · rw [if_neg h, if_neg (by omega)]

/-- the `k` passes take the elements with keys below `k`, each once -/
theorem passes_perm_filter (k : Nat) :
    (passes key l k).Perm (l.filter fun e => decide (0 ≤ key e) && decide (key e < k)) := by
  induction k with
  | zero =>
    rw [passes_zero, List.filter_eq_nil_iff.mpr]
    intro e _ h
    simp only [Bool.and_eq_true, decide_eq_true_eq] at h
    omega
  | succ k ih =>
    rw [passes_succ]
    have hlow : (l.filter fun e => decide (0 ≤ key e) && decide (key e < k))
        = (l.filter fun e => decide (0 ≤ key e) && decide (key e < (k + 1 : Nat))).filter
            fun e => decide (key e < k) := by
      rw [List.filter_filter]
      apply List.filter_congr
      intro e _
      rw [Bool.eq_iff_iff]
      simp only [Bool.and_eq_true, decide_eq_true_eq]
      omega
    have htop : (l.filter fun e => decide (key e = k))
        = (l.filter fun e => decide (0 ≤ key e) && decide (key e < (k + 1 : Nat))).filter
            fun e => !decide (key e < k) := by
      rw [List.filter_filter]
      apply List.filter_congr
      intro e _
      rw [Bool.eq_iff_iff]
      simp only [Bool.and_eq_true, Bool.not_eq_true', decide_eq_true_eq, decide_eq_false_iff_not]
      omega
    have hsplit := List.filter_append_perm (fun e => decide (key e < k))
      (l.filter fun e => decide (0 ≤ key e) && decide (key e < (k + 1 : Nat)))
    rw [← hlow, ← htop] at hsplit
    exact (ih.append_right _).trans hsplit

theorem passes_perm (k : Nat) (h : ∀ e ∈ l, 0 ≤ key e ∧ key e < k) :
    (passes key l k).Perm l := by
  have hall : (l.filter fun e => decide (0 ≤ key e) && decide (key e < k)) = l := by
    rw [List.filter_eq_self]
    intro e he
    obtain ⟨h0, h1⟩ := h e he
    simp [h0, h1]
  have hp := passes_perm_filter key l k
  rwa [hall] at hp

theorem passes_length (k : Nat) :
    (passes key l k).length = l.length ↔ ∀ e ∈ l, 0 ≤ key e ∧ key e < k := by
  rw [(passes_perm_filter key l k).length_eq, List.length_filter_eq_length_iff]
  simp only [Bool.and_eq_true, decide_eq_true_eq]

end Passes
