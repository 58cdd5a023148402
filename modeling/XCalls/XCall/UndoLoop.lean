import XCalls.XCall.Actions

/-!
# The undo actions that are still to be called

* `LateMgr`     the xCalls' undo actions have the order 0, and the sentinel manager's a later one;
* `ToUndo`     the loop of the generic undo action, with the xCalls' actions still to come;
* `ToUndo.other`, `ToUndo.mgr`, `ToUndo.exit`   the next one is called, and none is left when the
                sentinel manager's action is called and when the loop ends.
-/

namespace XCalls
open Passes
variable {N : Nat}

structure LateMgr (scan : List (XEntry N)) : Prop where
  zero : ∀ x ∈ others scan, x.2 = 0
  late : ∀ e ∈ scan, (∀ a, e.function ≠ .other a) → e.order = sentinelmgrActionOrder

/-- where the loop is, and the xCalls' actions that it has not called -/
structure ToUndo (scan : List (XEntry N)) (l : Loop (ActOf (XAction N)))
    (rest : List (XAction N × Int32)) : Prop where
  inv : l.Inv scan
  split : others scan = others l.executed ++ rest

section
variable {scan : List (XEntry N)} {l l' : Loop (ActOf (XAction N))} {e : XEntry N}
  {rest : List (XAction N × Int32)}

theorem others_cons_other {a : XAction N} (he : e.function = .other a) (l : List (XEntry N)) :
    others (e :: l) = (a, e.order) :: others l := by
  simp [others, he]

theorem others_cons_mgr (he : ∀ a, e.function ≠ .other a) (l : List (XEntry N)) :
    others (e :: l) = others l := by
  unfold others
  rw [List.filterMap_cons]
  cases hf : e.function with
  | other a => exact absurd hf (he a)
  | _ => rfl

theorem mem_others {a : XAction N} (he : e ∈ scan) (ha : e.function = .other a) :
    (a, e.order) ∈ others scan := by
  refine List.mem_filterMap.mpr ⟨e, he, ?_⟩
  rw [ha]

theorem LateMgr.key (h : LateMgr scan) (he : e ∈ scan) :
    e.key = 0 ∧ (∃ a, e.function = .other a) ∨
      e.key = 2 ∧ ∀ a, e.function ≠ .other a := by
  unfold ActionEntry.key
  by_cases ha : ∃ a, e.function = .other a
  · obtain ⟨a, ha⟩ := ha
    have h0 : e.order = 0 := h.zero _ (mem_others he ha)
    exact Or.inl ⟨by rw [h0]; rfl, a, ha⟩
  · have hm : ∀ a, e.function ≠ .other a := fun a hc => ha ⟨a, hc⟩
    exact Or.inr ⟨by rw [h.late e he hm]; rfl, hm⟩

theorem LateMgr.key_nonneg (h : LateMgr scan) : ∀ e ∈ scan, 0 ≤ e.key := by
  intro e he
  rcases h.key he with ⟨hk, -⟩ | ⟨hk, -⟩ <;> omega

theorem LateMgr.others_key (h : LateMgr scan) {l : List (XEntry N)} (hl : ∀ e ∈ l, e ∈ scan) :
    others (l.filter fun e => e.key = 0) = others l := by
  induction l with
  | nil => rfl
  | cons e l ih =>
    have ih := ih fun x hx => hl x (List.mem_cons_of_mem _ hx)
    rcases h.key (hl e List.mem_cons_self) with ⟨hk, a, ha⟩ | ⟨hk, hm⟩
    · rw [List.filter_cons_of_pos (by simpa using hk), others_cons_other ha, others_cons_other ha,
        ih]
    · rw [List.filter_cons_of_neg (by simp [hk]), others_cons_mgr hm, ih]

theorem LateMgr.others_passes (h : LateMgr scan) {k : Nat} (hk : 0 < k) :
    others (passes ActionEntry.key scan k) = others scan := by
  have hmem : ∀ e ∈ passes ActionEntry.key scan k, e ∈ scan := fun e he =>
    ((mem_passes _ _ k e).mp he).1
  rw [← h.others_key hmem, passes_filter, if_pos ⟨Int.le_refl _, by omega⟩,
    h.others_key fun _ hx => hx]

theorem ToUndo.start (scan : List (XEntry N)) : ToUndo scan Loop.start (others scan) :=
  ⟨Loop.inv_start scan, rfl⟩

theorem ToUndo.move (h : ToUndo scan l rest) (hs : LateMgr scan)
    (hn : l.next scan = .move l') : ToUndo scan l' rest where
  inv := Loop.inv_move hs.key_nonneg h.inv hn
  split := by
    rw [Loop.executed_move hn]
    exact h.split

theorem call_mem (hn : l.next scan = .call e l') : e ∈ scan := by
  rcases Loop.next_cases scan l with ⟨_, _, hx⟩ | ⟨_, _, hx⟩ | ⟨i, _, _, hx⟩ |
      ⟨i, e', _, he, _, hx⟩ | ⟨i, e', _, _, _, hx⟩ <;>
    rw [hx] at hn <;> cases hn
  exact List.mem_of_getElem? he

theorem call_cases (hn : l.next scan = .call e l') (h : l.Inv scan) :
    ∃ i k : Nat, scan[i]? = some e ∧ e.key = k ∧
      l.executed = passes ActionEntry.key scan k
        ++ (scan.take i).filter fun e => e.key = (k : Int) := by
  rcases Loop.next_cases scan l with ⟨_, _, hx⟩ | ⟨_, _, hx⟩ | ⟨i, _, _, hx⟩ |
      ⟨i, e', hp, he, ho, hx⟩ | ⟨i, e', _, _, _, hx⟩ <;>
    rw [hx] at hn <;> cases hn
  obtain ⟨k, _, hko, _, hex⟩ := Loop.inv_entry h hp
  exact ⟨i, k, he, (Loop.order_eq_iff e _ k hko).mp ho, hex⟩

/-- **The next of the xCalls' actions is called.** -/
theorem ToUndo.other (h : ToUndo scan l rest) (hs : LateMgr scan) {a : XAction N}
    (hn : l.next scan = .call e l') (ha : e.function = .other a) :
    ∃ rest', rest = (a, e.order) :: rest' ∧ ToUndo scan l' rest' := by
  obtain ⟨i, k, he, hk, hex⟩ := call_cases hn h.inv
  have hmem : e ∈ scan := List.mem_of_getElem? he
  have hk0 : e.key = 0 := by
    rcases hs.key hmem with ⟨h0, -⟩ | ⟨-, hm⟩
    · exact h0
    · exact absurd ha (hm a)
  obtain rfl : k = 0 := by omega
  have hex' : others l.executed = others (scan.take i) := by
    rw [hex, passes_zero, List.nil_append]
    exact hs.others_key fun x hx => List.mem_of_mem_take hx
  obtain ⟨hi, hget⟩ := List.getElem?_eq_some_iff.mp he
  have hscan : others scan
      = others (scan.take i) ++ (a, e.order) :: others (scan.drop (i + 1)) := by
    rw [← others_cons_other ha, ← others_append, ← hget, List.getElem_cons_drop hi,
      List.take_append_drop]
  have hrest : rest = (a, e.order) :: others (scan.drop (i + 1)) := by
    have heq := h.split.symm.trans hscan
    rw [hex'] at heq
    exact List.append_cancel_left heq
  refine ⟨_, hrest, Loop.inv_call h.inv hn, ?_⟩
  rw [Loop.executed_call hn, others_append, others_cons_other ha, hex', List.append_assoc]
  exact hscan

/-- **The sentinel manager's action is called** when no other one is left. -/
theorem ToUndo.mgr (h : ToUndo scan l rest) (hs : LateMgr scan) (hn : l.next scan = .call e l')
    (he : ∀ a, e.function ≠ .other a) : rest = [] ∧ ToUndo scan l' [] := by
  obtain ⟨i, k, hi, hk, hex⟩ := call_cases hn h.inv
  have hk2 : e.key = 2 := by
    rcases hs.key (List.mem_of_getElem? hi) with ⟨-, a, ha⟩ | ⟨h2, -⟩
    · exact absurd ha (he a)
    · exact h2
  obtain rfl : k = 2 := by omega
  have hlate : others ((scan.take i).filter fun e => e.key = ((2 : Nat) : Int)) = [] := by
    refine List.filterMap_eq_nil_iff.mpr fun x hx => ?_
    obtain ⟨hmem, hkey⟩ := List.mem_filter.mp hx
    rcases hs.key (List.mem_of_mem_take hmem) with ⟨h0, -⟩ | ⟨-, hm⟩
    · simp [h0] at hkey
    · cases hf : x.function with
      | other a => exact absurd hf (hm a)
      | _ => rfl
  have hall : others l.executed = others scan := by
    rw [hex, others_append, hs.others_passes (by omega), hlate, List.append_nil]
  have hrest : rest = [] := by
    have heq := h.split
    rw [hall] at heq
    exact List.self_eq_append_right.mp heq
  refine ⟨hrest, Loop.inv_call h.inv hn, ?_⟩
  rw [Loop.executed_call hn, others_append, others_cons_mgr he, hall, List.append_nil]
  exact (List.append_nil _).symm

/-- **The loop ends** when no action is left. -/
theorem ToUndo.exit (h : ToUndo scan l rest) (hs : LateMgr scan) (hn : l.next scan = .exit) :
    rest = [] := by
  obtain ⟨k, hex, hk⟩ := Loop.exit_executed h.inv hn
  have hall : others l.executed = others scan := by
    rw [hex]
    by_cases h0 : k = 0
    · have hnil : scan = [] := by
        rw [List.eq_nil_iff_forall_not_mem]
        intro e he
        have := hk e he
        omega
      rw [hnil, h0]
      rfl
    · exact hs.others_passes (Nat.pos_of_ne_zero h0)
  have heq := h.split
  rw [hall] at heq
  exact List.self_eq_append_right.mp heq

end

end XCalls
