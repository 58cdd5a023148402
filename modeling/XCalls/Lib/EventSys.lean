import Mathlib

/-!
# Event systems: runs, reachable states, invariants

A system is a partial step function `step : σ → ε → Option σ` (`none`: the event is not enabled).
`Reach step ok init s`: the state `s` is reached from a state of `init` by events that all meet the
condition `ok` in the state in which they happen.

* `Reach.inv`        a property that holds initially and is kept by every `ok` step holds in
                     every reached state;
* `reach_of_run`, `reach_of_guarded`   a concrete list of events is a run;
* `run_simulates`    a relation that every step keeps carries a run over to another system;
* `acyclic_of_rank`  a relation along which a rank goes up has no cycle.
-/

namespace EventSys
variable {σ ε : Type*}

/-- the state after a list of events -/
def run (step : σ → ε → Option σ) : σ → List ε → Option σ
  | s, [] => some s
  | s, e :: es => (step s e).bind fun s' => run step s' es

theorem run_nil (step : σ → ε → Option σ) (s : σ) : run step s [] = some s := rfl

theorem run_cons (step : σ → ε → Option σ) (s : σ) (e : ε) (es : List ε) :
    run step s (e :: es) = (step s e).bind fun s' => run step s' es := rfl

theorem run_append (step : σ → ε → Option σ) (s : σ) (es es' : List ε) :
    run step s (es ++ es') = (run step s es).bind fun s' => run step s' es' := by
  induction es generalizing s with
  | nil => rfl
  | cons e es ih =>
    rw [List.cons_append, run_cons, run_cons]
    cases step s e with
    | none => rfl
    | some s1 => exact ih s1

inductive Reach (step : σ → ε → Option σ) (ok : σ → ε → Prop) (init : σ → Prop) : σ → Prop
  | start {s : σ} (h : init s) : Reach step ok init s
  | next {s s' : σ} {e : ε} (h : Reach step ok init s) (hok : ok s e) (hs : step s e = some s') :
      Reach step ok init s'

/-- every event is allowed -/
def any : σ → ε → Prop := fun _ _ => True

variable {step : σ → ε → Option σ} {ok : σ → ε → Prop} {init : σ → Prop}

/-- **Invariant rule.** -/
theorem Reach.inv {I : σ → Prop} (h0 : ∀ s, init s → I s)
    (hs : ∀ s e s', I s → ok s e → step s e = some s' → I s') {s : σ}
    (h : Reach step ok init s) : I s := by
  induction h with
  | start h => exact h0 _ h
  | next _ hok hstep ih => exact hs _ _ _ ih hok hstep

theorem Reach.mono_init {init' : σ → Prop} (hle : ∀ s, init s → init' s) {s : σ}
    (h : Reach step ok init s) : Reach step ok init' s := by
  induction h with
  | start h => exact .start (hle _ h)
  | next _ hok hstep ih => exact .next ih hok hstep

/-- the step function that refuses events that do not meet the condition -/
def guarded (step : σ → ε → Option σ) (ok : σ → ε → Prop) [∀ s e, Decidable (ok s e)] :
    σ → ε → Option σ := fun s e => if ok s e then step s e else none

theorem Reach.of_guarded [∀ s e, Decidable (ok s e)] {s : σ} (h : Reach step ok init s)
    (es : List ε) : ∀ {s' : σ}, run (guarded step ok) s es = some s' → Reach step ok init s' := by
  induction es generalizing s with
  | nil =>
    intro s' hr
    rw [run_nil, Option.some.injEq] at hr
    exact hr ▸ h
  | cons e es ih =>
    intro s' hr
    rw [run_cons, Option.bind_eq_some_iff] at hr
    obtain ⟨s1, h1, h2⟩ := hr
    unfold guarded at h1
    split at h1
    · exact ih (h.next ‹_› h1) h2
    · cases h1

theorem reach_of_guarded [∀ s e, Decidable (ok s e)] {s₀ s : σ} (es : List ε)
    (h : run (guarded step ok) s₀ es = some s) : Reach step ok (· = s₀) s := by
  have h0 : Reach step ok (· = s₀) s₀ := .start rfl
  exact h0.of_guarded es h

theorem reach_of_run {s₀ s : σ} (es : List ε) (h : run step s₀ es = some s) :
    Reach step any (· = s₀) s := by
  have : ∀ (s : σ) (e : ε), Decidable (any s e) := fun _ _ => instDecidableTrue
  refine reach_of_guarded es ?_
  have hstep : guarded step any = step := by
    funext s e
    exact if_pos trivial
  rw [hstep]
  exact h

/-- **Forward simulation.**  What every single step of the one system has in the other, every run
has. -/
theorem run_simulates {σ' ε' : Type*} {step' : σ' → ε' → Option σ'} {R : σ → σ' → Prop} {f : ε → ε'}
    (hstep : ∀ s t e s', R s t → step s e = some s' → ∃ t', step' t (f e) = some t' ∧ R s' t')
    (es : List ε) : ∀ {s s' : σ} {t : σ'}, R s t → run step s es = some s' →
      ∃ t', run step' t (es.map f) = some t' ∧ R s' t' := by
  induction es with
  | nil =>
    intro s s' t hR hrun
    cases hrun
    exact ⟨t, rfl, hR⟩
  | cons e es ih =>
    intro s s' t hR hrun
    obtain ⟨s₁, hs, hrest⟩ := Option.bind_eq_some_iff.mp hrun
    obtain ⟨t₁, ht, hR₁⟩ := hstep s t e s₁ hR hs
    obtain ⟨t', ht', hR'⟩ := ih hR₁ hrest
    refine ⟨t', ?_, hR'⟩
    rw [List.map_cons, run_cons, ht]
    exact ht'

/-- **No cycle along a rising rank.** -/
theorem acyclic_of_rank {τ κ : Type} [Preorder κ] (R : τ → τ → Prop) (P : τ → Prop)
    (rank : τ → κ) (hR : ∀ a b, R a b → P b → rank a < rank b) (hP : ∀ a b, R a b → P a) :
    ∀ a, ¬ Relation.TransGen R a a := by
  have hlt : ∀ a b, Relation.TransGen R a b → P b → rank a < rank b := by
    intro a b h
    induction h with
    | single h => exact hR _ _ h
    | tail _ h ih => exact fun hb => lt_trans (ih (hP _ _ h)) (hR _ _ h hb)
  intro a h
  have ha : P a := by
    rcases Relation.TransGen.head'_iff.mp h with ⟨b, hab, _⟩
    exact hP _ _ hab
  exact lt_irrefl _ (hlt a a h ha)

end EventSys
