import Mathlib

/-!
# Bubble sort on an array, with its bounds

`sort key l` is the bubble sort that stops after the first pass without a swap, written with array
indices: `none` stands for an access outside the array.

* `compareSwap`, `pass`, `sortLoop`   one comparison, one pass, the loop over the passes;
* `forLoop`, `doLoop`   the same two loops as C writes them, with an `int` bound that may fall below 0
                  and any fuel (`doLoop_eq`);
* `carry`         what a pass does to a list: it carries the largest element seen to the right;
* `pass_eq`       the pass of the array is `carry`;
* `sort_spec`     the sort never leaves the array and returns a sorted permutation.
-/

namespace Bubble
variable {ε : Type} (key : ε → Int)

/-- the comparison of the entries `i` and `i + 1`, and whether they were swapped -/
def compareSwap (l : List ε) (i : Nat) : Option (List ε × Bool) :=
  match l[i]?, l[i + 1]? with
  | some a, some b =>
    if key a > key b then some ((l.set (i + 1) a).set i b, true) else some (l, false)
  | _, _ => none

def pass : (m i : Nat) → List ε → Bool → Option (List ε × Bool)
  | 0, _, l, swapped => some (l, swapped)
  | m + 1, i, l, swapped =>
    (compareSwap key l i).bind fun (l', s) => pass m (i + 1) l' (swapped || s)

/-- passes over the first `n` entries, then `n - 1`, and so on while there are swaps -/
def sortLoop : (n : Nat) → List ε → Option (List ε)
  | 0, l => some l
  | n + 1, l =>
    (pass key n 0 l false).bind fun (l', swapped) =>
      if swapped then sortLoop n l' else some l'

def sort (l : List ε) : Option (List ε) := sortLoop key l.length l

/-- `for (i = ..; i < n - 1; i++)`, with the test made at most `fuel` times -/
def forLoop (n : Int) : (fuel i : Nat) → List ε → Bool → Option (List ε × Bool)
  | 0, _, _, _ => none
  | fuel + 1, i, l, swapped =>
    if (i : Int) < n - 1 then
      (compareSwap key l i).bind fun (l', s) => forLoop n fuel (i + 1) l' (swapped || s)
    else some (l, swapped)

/-- `do … n = n - 1; while (swapped)`, with at most `fuel` rounds of at most `tests` tests each -/
def doLoop (tests : Nat) : (fuel : Nat) → (n : Int) → List ε → Option (List ε)
  | 0, _, _ => none
  | fuel + 1, n, l =>
    (forLoop key n tests 0 l false).bind fun (l', swapped) =>
      if swapped then doLoop tests fuel (n - 1) l' else some l'

/-! ## the loops end -/

theorem forLoop_eq (n : Int) (m fuel i : Nat) (l : List ε) (swapped : Bool) (hf : m < fuel)
    (hm : m = (n - 1 - i).toNat) : forLoop key n fuel i l swapped = pass key m i l swapped := by
  induction m generalizing fuel i l swapped with
  | zero =>
    cases fuel with
    | zero => omega
    | succ fuel => rw [forLoop, if_neg (by omega), pass]
  | succ m ih =>
    cases fuel with
    | zero => omega
    | succ fuel =>
      rw [forLoop, if_pos (by omega), pass]
      congr 1
      funext x
      exact ih fuel (i + 1) x.1 (swapped || x.2) (by omega) (by omega)

theorem doLoop_eq (tests fuel n : Nat) (l : List ε) (hf : n < fuel) (ht : n ≤ tests)
    (h0 : 0 < tests) : doLoop key tests fuel n l = sortLoop key n l := by
  induction n generalizing fuel l with
  | zero =>
    cases fuel with
    | zero => omega
    | succ fuel =>
      rw [doLoop, forLoop_eq key _ 0 tests 0 l false h0 (by omega)]
      rfl
  | succ n ih =>
    cases fuel with
    | zero => omega
    | succ fuel =>
      rw [doLoop, forLoop_eq key _ n tests 0 l false ht (by omega), sortLoop]
      congr 1
      funext x
      have hn : ((n + 1 : Nat) : Int) - 1 = n := by omega
      dsimp only
      rw [hn, ih fuel x.1 (by omega) (by omega)]

/-! ## one pass -/

/-- `m` comparisons with `a` in hand: what is left behind, what is in hand then, any swap -/
def carry : (m : Nat) → ε → List ε → List ε × ε × Bool
  | 0, a, _ => ([], a, false)
  | _ + 1, a, [] => ([], a, false)
  | m + 1, a, b :: r =>
    if key a > key b then (b :: (carry m a r).1, (carry m a r).2.1, true)
    else (a :: (carry m b r).1, (carry m b r).2)

theorem compareSwap_at (p : List ε) (a b : ε) (r : List ε) :
    compareSwap key (p ++ a :: b :: r) p.length
      = some (if key a > key b then (p ++ b :: a :: r, true) else (p ++ a :: b :: r, false)) := by
  have h0 : (p ++ a :: b :: r)[p.length]? = some a := by simp
  have h1 : (p ++ a :: b :: r)[p.length + 1]? = some b := by
    rw [List.getElem?_append_right (by omega)]
    simp
  unfold compareSwap
  rw [h0, h1]
  by_cases h : key a > key b
  · simp [h]
  · simp [h]

theorem pass_eq (m : Nat) (p : List ε) (a : ε) (r : List ε) (s : Bool) (hm : m ≤ r.length) :
    pass key m p.length (p ++ a :: r) s
      = some (p ++ (carry key m a r).1 ++ (carry key m a r).2.1 :: r.drop m,
          s || (carry key m a r).2.2) := by
  induction m generalizing p a r s with
  | zero => simp [pass, carry]
  | succ m ih =>
    cases r with
    | nil => simp at hm
    | cons b r =>
      have hm' : m ≤ r.length := by simpa using hm
      rw [pass, compareSwap_at, Option.bind_some, carry]
      by_cases h : key a > key b
      · have := ih (p ++ [b]) a r (s || true) hm'
        simp only [List.length_append, List.length_singleton, List.append_assoc,
          List.singleton_append] at this
        simp only [h, if_true, this]
        simp
      · have := ih (p ++ [a]) b r (s || false) hm'
        simp only [List.length_append, List.length_singleton, List.append_assoc,
          List.singleton_append] at this
        simp only [h, if_false, this]
        simp

theorem carry_append (m : Nat) (a : ε) (r r' : List ε) (hm : m ≤ r.length) :
    carry key m a (r ++ r') = carry key m a r := by
  induction m generalizing a r with
  | zero => cases r <;> cases r' <;> rfl
  | succ m ih =>
    cases r with
    | nil => simp at hm
    | cons b r =>
      have hm' : m ≤ r.length := by simpa using hm
      rw [List.cons_append, carry, carry, ih a r hm', ih b r hm']

theorem carry_perm (m : Nat) (a : ε) (r : List ε) (hm : m ≤ r.length) :
    ((carry key m a r).1 ++ [(carry key m a r).2.1]).Perm (a :: r.take m) := by
  induction m generalizing a r with
  | zero => simp [carry]
  | succ m ih =>
    cases r with
    | nil => simp at hm
    | cons b r =>
      have hm' : m ≤ r.length := by simpa using hm
      rw [carry, List.take_succ_cons]
      by_cases h : key a > key b
      · simp only [h, if_true, List.cons_append]
        exact ((ih a r hm').cons b).trans (List.Perm.swap a b _)
      · simp only [h, if_false, List.cons_append]
        exact (ih b r hm').cons a

/-- what is in hand at the end is at least `a` and at least everything left behind -/
theorem carry_max (m : Nat) (a : ε) (r : List ε) :
    key a ≤ key (carry key m a r).2.1 ∧
      ∀ x ∈ (carry key m a r).1, key x ≤ key (carry key m a r).2.1 := by
  induction m generalizing a r with
  | zero => simp [carry]
  | succ m ih =>
    cases r with
    | nil => simp [carry]
    | cons b r =>
      rw [carry]
      by_cases h : key a > key b
      · simp only [h, if_true]
        obtain ⟨h1, h2⟩ := ih a r
        refine ⟨h1, fun x hx => ?_⟩
        rcases List.mem_cons.mp hx with rfl | hx
        · omega
        · exact h2 x hx
      · simp only [h, if_false]
        obtain ⟨h1, h2⟩ := ih b r
        refine ⟨by omega, fun x hx => ?_⟩
        rcases List.mem_cons.mp hx with rfl | hx
        · omega
        · exact h2 x hx

/-- a pass without a swap has found the entries in order -/
theorem carry_sorted (m : Nat) (a : ε) (r : List ε) (hm : m ≤ r.length)
    (hs : (carry key m a r).2.2 = false) :
    ((carry key m a r).1 ++ [(carry key m a r).2.1]).Pairwise (fun x y => key x ≤ key y) ∧
      ∀ x ∈ (carry key m a r).1 ++ [(carry key m a r).2.1], key a ≤ key x := by
  induction m generalizing a r with
  | zero => simp [carry]
  | succ m ih =>
    cases r with
    | nil => simp at hm
    | cons b r =>
      have hm' : m ≤ r.length := by simpa using hm
      rw [carry] at hs ⊢
      by_cases h : key a > key b
      · simp [h] at hs
      · simp only [h, if_false] at hs
        obtain ⟨h1, h2⟩ := ih b r hm' hs
        simp only [h, if_false, List.cons_append, List.pairwise_cons]
        have hle : ∀ x ∈ (carry key m b r).1 ++ [(carry key m b r).2.1], key a ≤ key x := by
          intro x hx
          have := h2 x hx
          omega
        refine ⟨⟨hle, h1⟩, fun x hx => ?_⟩
        rcases List.mem_cons.mp hx with rfl | hx
        · exact Int.le_refl _
        · exact hle x hx

/-! ## the sort -/

/-- **The loop sorts.**  The first `n` entries `l` are in any order, the others `r` are sorted and
not below any of the first. -/
theorem sortLoop_spec (n : Nat) (l r : List ε) (hn : l.length = n)
    (hr : r.Pairwise fun x y => key x ≤ key y) (hlr : ∀ x ∈ l, ∀ y ∈ r, key x ≤ key y) :
    ∃ l', sortLoop key n (l ++ r) = some l' ∧ l'.Perm (l ++ r) ∧
      l'.Pairwise fun x y => key x ≤ key y := by
  induction n generalizing l r with
  | zero =>
    obtain rfl := List.length_eq_zero_iff.mp hn
    exact ⟨r, rfl, .refl _, hr⟩
  | succ n ih =>
    cases l with
    | nil => simp at hn
    | cons a l =>
      have hlen : l.length = n := by simpa using hn
      have hpass := pass_eq key n [] a (l ++ r) false (by rw [List.length_append]; omega)
      have hcarry : carry key n a (l ++ r) = carry key n a l := carry_append key n a l r (by omega)
      have hdrop : (l ++ r).drop n = r := by rw [← hlen, List.drop_left]
      rw [List.length_nil, List.nil_append, List.nil_append, hcarry, hdrop, Bool.false_or] at hpass
      have hperm := carry_perm key n a l (by omega)
      rw [← hlen, List.take_length, hlen] at hperm
      have hall : ((carry key n a l).1 ++ (carry key n a l).2.1 :: r).Perm (a :: l ++ r) := by
        have := hperm.append_right r
        rwa [List.append_assoc, List.singleton_append] at this
      have hbelow : ∀ x ∈ (carry key n a l).1 ++ [(carry key n a l).2.1], ∀ y ∈ r,
          key x ≤ key y := fun x hx => hlr x (hperm.mem_iff.mp hx)
      rw [List.cons_append, sortLoop, hpass, Option.bind_some]
      cases hs : (carry key n a l).2.2 with
      | false =>
        refine ⟨_, rfl, hall, ?_⟩
        have hsorted := (carry_sorted key n a l (by omega) hs).1
        have := List.pairwise_append.mpr ⟨hsorted, hr, hbelow⟩
        rwa [List.append_assoc, List.singleton_append] at this
      | true =>
        have hmax := (carry_max key n a l).2
        have hflen : (carry key n a l).1.length = n := by
          have := hperm.length_eq
          rw [List.length_append, List.length_singleton, List.length_cons] at this
          omega
        obtain ⟨l', h1, h2, h3⟩ := ih (carry key n a l).1 ((carry key n a l).2.1 :: r) hflen
          (List.pairwise_cons.mpr ⟨fun y hy => hbelow _ (by simp) y hy, hr⟩)
          (fun x hx y hy => by
            rcases List.mem_cons.mp hy with rfl | hy
            · exact hmax x hx
            · exact hbelow x (by simp [hx]) y hy)
        exact ⟨l', h1, h2.trans hall, h3⟩

theorem sort_spec (l : List ε) :
    ∃ l', sort key l = some l' ∧ l'.Perm l ∧ l'.Pairwise fun x y => key x ≤ key y := by
  have := sortLoop_spec key l.length l [] rfl List.Pairwise.nil (by simp)
  rwa [List.append_nil] at this

end Bubble
