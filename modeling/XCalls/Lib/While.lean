import Mathlib

/-!
# Loops that are left from inside

A pass of a loop goes on with a new state, leaves the loop with a value, or faults.  Passes are
written in `Except (Stop α)`: going on is `ok`.

* `Runs`      what a pass, or a piece of one, can do: no fault, and where it goes on or stops;
* `Runs.bind`   pieces in sequence;
* `forever`   the loop, `none` for a fault or if the fuel runs out;
* `Yields`    a computation that ends, with a value as it should be;
* `forever_yields`   the rule for loops: an invariant that every pass keeps, a measure that every
                     pass lowers;
* `unrolled`, `counted`   the loops of four steps a pass and of one, with their rules.
-/

namespace While
variable {α β σ τ : Type}

inductive Stop (α : Type) where
  | fault
  | value (a : α)
  deriving DecidableEq, Repr

/-- an access that can fault -/
def access : Option σ → Except (Stop α) σ
  | none => .error .fault
  | some s => .ok s

def Runs (x : Except (Stop α) σ) (Q : σ → Prop) (R : α → Prop) : Prop :=
  match x with
  | .ok s => Q s
  | .error (.value a) => R a
  | .error .fault => False

section
variable {x : Except (Stop α) σ} {f : σ → Except (Stop α) τ} {P Q : σ → Prop} {Q' : τ → Prop}
  {R R' : α → Prop}

theorem Runs.ok {s : σ} (h : Q s) : Runs (.ok s : Except (Stop α) σ) Q R := h

theorem Runs.value {a : α} (h : R a) : Runs (.error (.value a) : Except (Stop α) σ) Q R := h

theorem Runs.access {o : Option σ} {s : σ} (ho : o = some s) (h : Q s) :
    Runs (While.access o : Except (Stop α) σ) Q R := by
  rw [ho]
  exact h

theorem Runs.bind (hx : Runs x P R) (hf : ∀ s, P s → Runs (f s) Q' R) : Runs (x >>= f) Q' R := by
  cases x with
  | ok s => exact hf s hx
  | error e =>
    cases e with
    | fault => exact hx
    | value a => exact hx

theorem Runs.mono (hx : Runs x P R) (hQ : ∀ s, P s → Q s) (hR : ∀ a, R a → R' a) :
    Runs x Q R' := by
  cases x with
  | ok s => exact hQ s hx
  | error e =>
    cases e with
    | fault => exact hx
    | value a => exact hR a hx

end

/-! ## loops -/

/-- `for (;;) body` -/
def forever (body : σ → Except (Stop α) σ) : Nat → σ → Option α
  | 0, _ => none
  | fuel + 1, s =>
    match body s with
    | .ok s' => forever body fuel s'
    | .error (.value a) => some a
    | .error .fault => none

def Yields (x : Option α) (R : α → Prop) : Prop := ∃ a, x = some a ∧ R a

theorem Yields.some {a : α} {R : α → Prop} (h : R a) : Yields (some a) R := ⟨a, rfl, h⟩

theorem Yields.bind {x : Option α} {f : α → Option β} {R : α → Prop} {R' : β → Prop}
    (hx : Yields x R) (hf : ∀ a, R a → Yields (f a) R') : Yields (x >>= f) R' := by
  obtain ⟨a, rfl, ha⟩ := hx
  exact hf a ha

theorem Yields.eq {x : Option α} {a : α} (h : Yields x fun b => b = a) : x = Option.some a := by
  obtain ⟨b, hb, rfl⟩ := h
  exact hb

theorem forever_yields {body : σ → Except (Stop α) σ} {R : α → Prop} (I : σ → Prop)
    (measure : σ → Nat)
    (hbody : ∀ s, I s → Runs (body s) (fun s' => I s' ∧ measure s' < measure s) R) :
    ∀ fuel s, I s → measure s < fuel → Yields (forever body fuel s) R := by
  intro fuel
  induction fuel with
  | zero =>
    intro s _ hfuel
    exact absurd hfuel (Nat.not_lt_zero _)
  | succ fuel ih =>
    intro s hs hfuel
    have h := hbody s hs
    unfold forever
    cases hb : body s with
    | ok s' =>
      rw [hb] at h
      exact ih s' h.1 (Nat.lt_of_lt_of_le h.2 (Nat.le_of_lt_succ hfuel))
    | error e =>
      rw [hb] at h
      cases e with
      | fault => exact absurd h id
      | value a => exact ⟨a, rfl, h⟩

/-! ## a number of steps -/

/-- four steps, on a state and the number of passes that are left; `done` after the last one -/
def unrolled (step : σ → Except (Stop α) σ) (done : σ → α) (x : σ × Nat) :
    Except (Stop α) (σ × Nat) := do
  let s ← step x.1
  let s ← step s
  let s ← step s
  let s ← step s
  if x.2 - 1 = 0 then throw (.value (done s)) else return (s, x.2 - 1)

/-- `while (n > 0)`: a step, and `n--`; `done` behind the loop -/
def counted (step : σ → Except (Stop α) σ) (done : σ → α) (x : σ × Nat) :
    Except (Stop α) (σ × Nat) :=
  if x.2 = 0 then throw (.value (done x.1))
  else do
    let s ← step x.1
    return (s, x.2 - 1)

section
variable {step : σ → Except (Stop α) σ} {done : σ → α} {I : Nat → σ → Prop} {R : α → Prop}
  {n k fuel : Nat} {s : σ} (hstep : ∀ k s, k < n → I k s → Runs (step s) (I (k + 1)) R)
include hstep

theorem unrolled_runs {j : Nat} (h : I k s) (hn : k + 4 ≤ n) :
    Runs (unrolled step done (s, j)) (fun x => I (k + 4) x.1 ∧ x.2 = j - 1 ∧ j - 1 ≠ 0)
      (fun a => R a ∨ j - 1 = 0 ∧ ∃ s, a = done s ∧ I (k + 4) s) := by
  have hmono : ∀ i s, i < n → I i s → Runs (step s) (I (i + 1))
      (fun a => R a ∨ j - 1 = 0 ∧ ∃ s, a = done s ∧ I (k + 4) s) :=
    fun i s hi hs => (hstep i s hi hs).mono (fun _ h => h) fun _ h => Or.inl h
  apply Runs.bind (hmono k s (by omega) h)
  intro s1 h1
  apply Runs.bind (hmono (k + 1) s1 (by omega) h1)
  intro s2 h2
  apply Runs.bind (hmono (k + 2) s2 (by omega) h2)
  intro s3 h3
  apply Runs.bind (hmono (k + 3) s3 (by omega) h3)
  intro s4 h4
  by_cases h0 : j - 1 = 0
  · rw [if_pos h0]
    exact Runs.value (Or.inr ⟨h0, s4, rfl, h4⟩)
  · rw [if_neg h0]
    exact Runs.ok ⟨h4, rfl, h0⟩

/-- as many steps as four go into `n`, unless one of them leaves the loop -/
theorem unrolled_yields (h : I 0 s) (hn : 4 ≤ n) (hfuel : n < fuel) :
    Yields (forever (unrolled step done) fuel (s, n >>> 2)) fun a =>
      R a ∨ ∃ s, a = done s ∧ I (n - n % 4) s := by
  have hshift : n >>> 2 = n / 4 := Nat.shiftRight_eq_div_pow n 2
  apply forever_yields (fun x => ∃ k, I k x.1 ∧ k + 4 * x.2 = n - n % 4 ∧ x.2 ≠ 0) (fun x => x.2)
  · intro ⟨s, j⟩ ⟨k, h, hsum, h0⟩
    replace hsum : k + 4 * j = n - n % 4 := hsum
    replace h0 : j ≠ 0 := h0
    apply (unrolled_runs hstep h (by omega)).mono
    · intro x ⟨h', hx, hx0⟩
      rw [hx]
      exact ⟨⟨k + 4, h', by omega, hx0⟩, by omega⟩
    · intro a ha
      rcases ha with ha | ⟨hx0, s', ha, h'⟩
      · exact Or.inl ha
      · have he : k + 4 = n - n % 4 := by omega
        exact Or.inr ⟨s', ha, he ▸ h'⟩
  · refine ⟨0, h, ?_, ?_⟩
    · show 0 + 4 * (n >>> 2) = n - n % 4
      omega
    · show n >>> 2 ≠ 0
      omega
  · show n >>> 2 < fuel
    omega

/-- the steps that are left of `n`, unless one of them leaves the loop -/
theorem counted_yields (h : I k s) (hk : k ≤ n) (hfuel : n < fuel) :
    Yields (forever (counted step done) fuel (s, n - k)) fun a =>
      R a ∨ ∃ s, a = done s ∧ I n s := by
  apply forever_yields (fun x => ∃ k ≤ n, I k x.1 ∧ x.2 = n - k) (fun x => x.2)
  · intro ⟨s, j⟩ ⟨k, hk, h, hj⟩
    replace hj : j = n - k := hj
    unfold counted
    by_cases h0 : j = 0
    · rw [if_pos h0]
      have he : k = n := by omega
      exact Runs.value (Or.inr ⟨s, rfl, he ▸ h⟩)
    · rw [if_neg h0]
      apply Runs.bind ((hstep k s (by omega) h).mono (fun _ h => h) fun _ h => Or.inl h)
      intro s' h'
      refine Runs.ok ⟨⟨k + 1, by omega, h', ?_⟩, ?_⟩
      · show j - 1 = n - (k + 1)
        omega
      · show j - 1 < j
        omega
  · exact ⟨k, hk, h, rfl⟩
  · show n - k < fuel
    omega

end

theorem and_three (n : Nat) : n &&& 3 = n % 4 := Nat.and_two_pow_sub_one_eq_mod n 2

end While
