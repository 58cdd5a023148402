import Mathlib

/-!
# Strict two-phase locking

A state is made of objects: `obs s o` is what can be read of the object `o` in the state `s`.  Each
object has an owner or is free, and a thread only runs operations on the objects that it owns.

* `Agree`, `Confined`   an operation that reads and changes nothing but the objects of a set, in the
                  states that meet `W`;
* `replay`        operations with their results, run one after the other;
* `Isolated`      the state of an interleaved run, beside the state `base` that the finished threads
                  have made and a copy of the state for each thread;
* `Ahead`, `Back`   where a thread is: its log leads from `base` to its copy, and its undo
                  operation leads back;
* `Isolated.act`, `Isolated.acquire`, `Isolated.release`, `Isolated.commit`   what a step keeps.
-/

namespace TwoPhase
variable {S O V E T R Q : Type*}

/-! ## operations on objects -/

section
variable (obs : S → O → V)

/-- the states agree on the objects of `F` -/
def Agree (F : Set O) (s s' : S) : Prop := ∀ o ∈ F, obs s o = obs s' o

variable (W : S → Prop)

structure Confined (F : Set O) (m : S → R × S) : Prop where
  keeps : ∀ {s}, W s → W (m s).2
  frame : ∀ {s}, W s → Agree obs Fᶜ (m s).2 s
  reads : ∀ {s s'}, W s → W s' → Agree obs F s s' →
    (m s).1 = (m s').1 ∧ Agree obs F (m s).2 (m s').2

end

section
variable {obs : S → O → V} {W : S → Prop} {F G : Set O} {s s' s'' : S}

theorem Agree.refl (s : S) : Agree obs F s s := fun _ _ => rfl

theorem Agree.symm (h : Agree obs F s s') : Agree obs F s' s := fun o ho => (h o ho).symm

theorem Agree.trans (h : Agree obs F s s') (h' : Agree obs F s' s'') : Agree obs F s s'' :=
  fun o ho => (h o ho).trans (h' o ho)

theorem Agree.mono (hFG : F ⊆ G) (h : Agree obs G s s') : Agree obs F s s' :=
  fun o ho => h o (hFG ho)

theorem Confined.other {m : S → R × S} (hm : Confined obs W F m) (hs : W s) (hd : Disjoint F G) :
    Agree obs G (m s).2 s :=
  fun o ho => hm.frame hs o fun hF => Set.disjoint_left.mp hd hF ho

theorem Confined.mono {m : S → R × S} (hm : Confined obs W F m) (hFG : F ⊆ G) :
    Confined obs W G m where
  keeps := hm.keeps
  frame hs := (hm.frame hs).mono (Set.compl_subset_compl.mpr hFG)
  reads := by
    intro s s' hs hs' h
    obtain ⟨hr, hag⟩ := hm.reads hs hs' (h.mono hFG)
    refine ⟨hr, fun o ho => ?_⟩
    by_cases hF : o ∈ F
    · exact hag o hF
    · calc obs (m s).2 o = obs s o := hm.frame hs o hF
        _ = obs s' o := h o ho
        _ = obs (m s').2 o := (hm.frame hs' o hF).symm

theorem Confined.pure (r : R) : Confined obs W F fun s => (r, s) where
  keeps hs := hs
  frame _ := Agree.refl _
  reads _ _ h := ⟨rfl, h⟩

theorem Confined.bind {m : S → R × S} {k : R → S → Q × S} (hm : Confined obs W F m)
    (hk : ∀ r, Confined obs W F (k r)) : Confined obs W F fun s => k (m s).1 (m s).2 where
  keeps hs := (hk _).keeps (hm.keeps hs)
  frame hs := ((hk _).frame (hm.keeps hs)).trans (hm.frame hs)
  reads := by
    intro s s' hs hs' h
    obtain ⟨hr, hag⟩ := hm.reads hs hs' h
    have := (hk (m s).1).reads (hm.keeps hs) (hm.keeps hs') hag
    rw [hr] at this ⊢
    exact this

theorem Confined.of_bind {m : S → R × S} {n : S → Q × S} (hm : Confined obs W F m)
    (hn : ∀ r, ∃ k, Confined obs W F k ∧ ∀ s, (m s).1 = r → n s = k (m s).2) :
    Confined obs W F n := by
  choose k hk heq using hn
  have hbind : n = fun s => k (m s).1 (m s).2 := funext fun s => heq _ s rfl
  rw [hbind]
  exact hm.bind hk

end

/-! ## logs -/

section
variable [DecidableEq R] (exec : E → S → R × S)

/-- the operations of the log, if each has the result that the log tells -/
def replay : List (E × R) → S → Option S
  | [], s => some s
  | (e, r) :: l, s => if (exec e s).1 = r then replay l (exec e s).2 else none

theorem replay_append (l l' : List (E × R)) (s : S) :
    replay exec (l ++ l') s = (replay exec l s).bind (replay exec l') := by
  induction l generalizing s with
  | nil => rfl
  | cons e l ih =>
    rw [List.cons_append, replay, replay, ih]
    split <;> rfl

theorem replay_one (e : E) (s : S) : replay exec [(e, (exec e s).1)] s = some (exec e s).2 :=
  if_pos rfl

variable {exec} {obs : S → O → V} {W : S → Prop} {F : Set O} {s s' c : S} {l : List (E × R)}

theorem replay_keeps (hl : ∀ x ∈ l, Confined obs W F (exec x.1)) (hs : W s)
    (hc : replay exec l s = some c) : W c ∧ Agree obs Fᶜ c s := by
  induction l generalizing s with
  | nil =>
    cases hc
    exact ⟨hs, Agree.refl _⟩
  | cons x l ih =>
    have hx := hl x List.mem_cons_self
    rw [replay] at hc
    split at hc
    · obtain ⟨hW, hag⟩ := ih (fun y hy => hl y (List.mem_cons_of_mem _ hy)) (hx.keeps hs) hc
      exact ⟨hW, hag.trans (hx.frame hs)⟩
    · cases hc

/-- a log of operations on `F` has the same results in a state that agrees on `F` -/
theorem replay_local (hl : ∀ x ∈ l, Confined obs W F (exec x.1)) (hs : W s) (hs' : W s')
    (h : Agree obs F s s') (hc : replay exec l s = some c) :
    ∃ c', replay exec l s' = some c' ∧ Agree obs F c c' := by
  induction l generalizing s s' with
  | nil =>
    cases hc
    exact ⟨s', rfl, h⟩
  | cons x l ih =>
    have hx := hl x List.mem_cons_self
    rw [replay] at hc
    split at hc
    · rename_i hr
      obtain ⟨heq, hag⟩ := hx.reads hs hs' h
      obtain ⟨c', hc', hag'⟩ := ih (fun y hy => hl y (List.mem_cons_of_mem _ hy)) (hx.keeps hs)
        (hx.keeps hs') hag hc
      exact ⟨c', by rw [replay, if_pos (heq ▸ hr)]; exact hc', hag'⟩
    · cases hc

end

/-! ## one thread -/

section
variable (obs : S → O → V) (W : S → Prop)

/-- the log of a thread that owns `F` leads from `base` to its copy -/
structure Ahead [DecidableEq R] (exec : E → S → R × S) (F : Set O) (base copy : S)
    (log : List (E × R)) : Prop where
  loc : ∀ x ∈ log, Confined obs W F (exec x.1)
  ahead : ∃ c, replay exec log base = some c ∧ Agree obs F c copy

/-- the operation `undo` of a thread that owns `F` leads from its copy back to `base` -/
structure Back (undo : S → R × S) (F : Set O) (base copy : S) : Prop where
  loc : Confined obs W F undo
  back : Agree obs F (undo copy).2 base

end

section
variable {obs : S → O → V} {W : S → Prop} {F G : Set O} {base base' copy copy' : S}

section
variable [DecidableEq R] {exec : E → S → R × S} {log : List (E × R)}

theorem Ahead.nil (h : Agree obs F base copy) :
    Ahead obs W exec F base copy [] where
  loc x hx := by cases hx
  ahead := ⟨base, rfl, h⟩

theorem Ahead.snoc {e : E} (h : Ahead obs W exec F base copy log) (hb : W base) (hc : W copy)
    (he : Confined obs W F (exec e)) :
    Ahead obs W exec F base (exec e copy).2 (log ++ [(e, (exec e copy).1)]) where
  loc x hx := by
    rcases List.mem_append.mp hx with hx | hx
    · exact h.loc x hx
    · rw [List.mem_singleton.mp hx]
      exact he
  ahead := by
    obtain ⟨c, hrun, hag⟩ := h.ahead
    obtain ⟨hr, hag'⟩ := he.reads (replay_keeps h.loc hb hrun).1 hc hag
    refine ⟨(exec e c).2, ?_, hag'⟩
    rw [replay_append, hrun, ← hr]
    exact replay_one exec e c

theorem Ahead.rebase (h : Ahead obs W exec F base copy log) (hb : W base) (hb' : W base')
    (heq : Agree obs F base base') : Ahead obs W exec F base' copy log where
  loc := h.loc
  ahead := by
    obtain ⟨c, hrun, hag⟩ := h.ahead
    obtain ⟨c', hrun', hcc⟩ := replay_local h.loc hb hb' heq hrun
    exact ⟨c', hrun', hcc.symm.trans hag⟩

theorem Ahead.grow (h : Ahead obs W exec F base copy log) (hb : W base) (hFG : F ⊆ G)
    (hold : Agree obs F copy copy') (hnew : Agree obs (G \ F) base copy') :
    Ahead obs W exec G base copy' log where
  loc x hx := (h.loc x hx).mono hFG
  ahead := by
    obtain ⟨c, hrun, hag⟩ := h.ahead
    refine ⟨c, hrun, fun o ho => ?_⟩
    by_cases hF : o ∈ F
    · exact (hag o hF).trans (hold o hF)
    · exact ((replay_keeps h.loc hb hrun).2 o hF).trans (hnew o ⟨ho, hF⟩)

end

section
variable {undo : S → R × S}

theorem Back.nil (r : R) (h : Agree obs F copy base) :
    Back obs W (fun s => (r, s)) F base copy := ⟨Confined.pure r, h⟩

theorem Back.cons {undo₁ : S → Q × S} (h : Back obs W undo F base copy)
    (h₁ : Confined obs W F undo₁)
    (hc : W copy) (hc' : W copy') (hback : Agree obs F (undo₁ copy').2 copy) :
    Back obs W (fun s => undo (undo₁ s).2) F base copy' where
  loc := Confined.bind h₁ fun _ => h.loc
  back := ((h.loc.reads (h₁.keeps hc') hc hback).2).trans h.back

theorem Back.rebase (h : Back obs W undo F base copy) (heq : Agree obs F base base') :
    Back obs W undo F base' copy := ⟨h.loc, h.back.trans heq⟩

theorem Back.grow (h : Back obs W undo F base copy) (hc : W copy) (hc' : W copy') (hFG : F ⊆ G)
    (hold : Agree obs F copy copy') (hnew : Agree obs (G \ F) base copy') :
    Back obs W undo G base copy' where
  loc := h.loc.mono hFG
  back o ho := by
    by_cases hF : o ∈ F
    · exact ((h.loc.reads hc hc' hold).2 o hF).symm.trans (h.back o hF)
    · exact (h.loc.frame hc' o hF).trans (hnew o ⟨ho, hF⟩).symm

end

end

/-! ## all threads -/

/-- the objects that `t` owns -/
def held (own : O → Option T) (t : T) : Set O := {o | own o = some t}

theorem held_disjoint (own : O → Option T) {t u : T} (h : t ≠ u) :
    Disjoint (held own t) (held own u) := by
  rw [Set.disjoint_left]
  intro o ht hu
  exact h (Option.some.inj (ht.symm.trans hu))

/-- a free object is as in `base`, and one that is owned as in the copy of its owner -/
structure Isolated (obs : S → O → V) (W : S → Prop) (own : O → Option T) (base state : S)
    (copy : T → S) : Prop where
  wfBase : W base
  wfState : W state
  wfCopy : ∀ t, W (copy t)
  free : ∀ o, own o = none → obs state o = obs base o
  owned : ∀ t, Agree obs (held own t) state (copy t)

section
variable {obs : S → O → V} {W : S → Prop} {own own' : O → Option T} {base state : S} {copy : T → S}
  {t : T}

/-- **A thread runs an operation on its objects**: the result is the one on its copy. -/
theorem Isolated.act [DecidableEq T] (h : Isolated obs W own base state copy) {m : S → R × S}
    (hm : Confined obs W (held own t) m) :
    (m state).1 = (m (copy t)).1 ∧
      Isolated obs W own base (m state).2 (Function.update copy t (m (copy t)).2) := by
  obtain ⟨hr, hag⟩ := hm.reads h.wfState (h.wfCopy t) (h.owned t)
  refine ⟨hr, h.wfBase, hm.keeps h.wfState, fun u => ?_, fun o ho => ?_, fun u => ?_⟩
  · by_cases hu : u = t
    · rw [hu, Function.update_self]
      exact hm.keeps (h.wfCopy t)
    · rw [Function.update_of_ne hu]
      exact h.wfCopy u
  · have hout : o ∉ held own t := fun hc => by cases ho.symm.trans hc
    exact (hm.frame h.wfState o hout).trans (h.free o ho)
  · by_cases hu : u = t
    · rw [hu, Function.update_self]
      exact hag
    · rw [Function.update_of_ne hu]
      exact (hm.other h.wfState (held_disjoint own (Ne.symm hu))).trans (h.owned u)

/-- **A thread gets objects that were free**, and the state as its copy. -/
theorem Isolated.acquire [DecidableEq T] (h : Isolated obs W own base state copy)
    (hown : ∀ o, own' o = own o ∨ own o = none ∧ own' o = some t) :
    Isolated obs W own' base state (Function.update copy t state) where
  wfBase := h.wfBase
  wfState := h.wfState
  wfCopy u := by
    by_cases hu : u = t
    · rw [hu, Function.update_self]
      exact h.wfState
    · rw [Function.update_of_ne hu]
      exact h.wfCopy u
  free o ho := by
    rcases hown o with heq | ⟨-, heq⟩
    · exact h.free o (heq.symm.trans ho)
    · cases heq.symm.trans ho
  owned u := by
    by_cases hu : u = t
    · rw [hu, Function.update_self]
      exact Agree.refl _
    · rw [Function.update_of_ne hu]
      intro o ho
      rcases hown o with heq | ⟨-, heq⟩
      · exact h.owned u o (heq.symm.trans ho)
      · exact absurd (Option.some.inj (heq.symm.trans ho)).symm hu

/-- the objects that a thread gets are as in `base` -/
theorem Isolated.gets (h : Isolated obs W own base state copy)
    (hown : ∀ o, own' o = own o ∨ own o = none ∧ own' o = some t) :
    held own t ⊆ held own' t ∧ Agree obs (held own' t \ held own t) base state := by
  constructor
  · intro o ho
    rcases hown o with heq | ⟨hnone, -⟩
    · exact heq.trans ho
    · cases hnone.symm.trans ho
  · intro o ho
    rcases hown o with heq | ⟨hnone, -⟩
    · exact absurd (heq.symm.trans ho.1) ho.2
    · exact (h.free o hnone).symm

/-- **A thread gives up objects** when its copy is as `base`. -/
theorem Isolated.release (h : Isolated obs W own base state copy)
    (hown : ∀ o, own' o = own o ∨ own o = some t ∧ own' o = none)
    (hsettled : Agree obs (held own t) base (copy t)) : Isolated obs W own' base state copy where
  wfBase := h.wfBase
  wfState := h.wfState
  wfCopy := h.wfCopy
  free o ho := by
    rcases hown o with heq | ⟨hold, -⟩
    · exact h.free o (heq.symm.trans ho)
    · exact (h.owned t o hold).trans (hsettled o hold).symm
  owned u o ho := by
    rcases hown o with heq | ⟨-, heq⟩
    · exact h.owned u o (heq.symm.trans ho)
    · cases heq.symm.trans ho

/-- **A thread commits**: its log is the last part of the serial history.  The other threads find
their objects as they were. -/
theorem Isolated.commit [DecidableEq R] {exec : E → S → R × S} {log : List (E × R)}
    (h : Isolated obs W own base state copy)
    (ht : Ahead obs W exec (held own t) base (copy t) log) :
    ∃ base', replay exec log base = some base' ∧ Isolated obs W own base' state copy ∧
      Agree obs (held own t) base' (copy t) ∧
      ∀ u, u ≠ t → Agree obs (held own u) base base' := by
  obtain ⟨c, hrun, hag⟩ := ht.ahead
  obtain ⟨hW, hframe⟩ := replay_keeps ht.loc h.wfBase hrun
  refine ⟨c, hrun, ⟨hW, h.wfState, h.wfCopy, fun o ho => ?_, h.owned⟩, hag, fun u hu o ho => ?_⟩
  · have hout : o ∉ held own t := fun hc => by cases ho.symm.trans hc
    exact (h.free o ho).trans (hframe o hout).symm
  · have hout : o ∉ held own t := fun hc => hu (Option.some.inj (ho.symm.trans hc))
    exact (hframe o hout).symm

end

end TwoPhase
