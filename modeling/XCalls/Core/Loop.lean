import XCalls.Core.Desc
import XCalls.Lib.Passes

/-!
# The loop of the generic actions, one step at a time

`tx_generic_commit_action` and `tx_generic_undo_action` run the same two nested loops: the outer
one counts `order` up until as many actions have been executed as there are entries, the inner one
scans the entries and calls those of the current order.  The commit loop scans the array upwards,
the undo loop downwards (`scan` below is the list of entries in the order of the scan).

* `Loop.next`        what the loop does next: leave, call an entry, or move on;
* `Loop.Inv`         what has been executed is what the finished passes take, and the part of the
                     current pass that has been scanned;
* `Loop.inv_move`, `Loop.inv_call`, `Loop.rank_next`   a step keeps the invariant and lowers the rank;
* `Loop.lower_executed`   when an entry is called, all entries of lower orders have been.
-/

namespace XCalls
open Passes
variable {α : Type}

/-- the order of an entry as an integer -/
def ActionEntry.key (e : ActionEntry α) : Int := e.order.toInt

theorem ActionEntry.key_lt (e : ActionEntry α) : e.key < (2 ^ 31 : Nat) := Int32.toInt_lt _

/-- where the control is: at the test of the outer loop, or in the inner loop -/
inductive Pos where
  | top
  | entry (i : Nat)
  deriving DecidableEq, Repr

/-- the local variables; `num_actions_executed` is the length of `executed` -/
structure Loop (α : Type) where
  order : Int32
  pos : Pos
  executed : List (ActionEntry α)
  deriving DecidableEq, Repr

namespace Loop

def start : Loop α := ⟨0, .top, []⟩

inductive Next (α : Type) where
  | exit
  | call (e : ActionEntry α) (l : Loop α)
  | move (l : Loop α)

/-- one step of the loop over the entries `scan` -/
def next (scan : List (ActionEntry α)) (l : Loop α) : Next α :=
  match l.pos with
  | .top =>
    if l.executed.length = scan.length then .exit else .move { l with pos := .entry 0 }
  | .entry i =>
    match scan[i]? with
    | none => .move { l with pos := .top, order := l.order + 1 }
    | some e =>
      if e.order = l.order then
        .call e { l with pos := .entry (i + 1), executed := l.executed ++ [e] }
      else .move { l with pos := .entry (i + 1) }

/-! ## the invariant -/

/-- the outer loop is about to begin pass `k`, or is in it at the index `i` of the scan -/
def Inv (scan : List (ActionEntry α)) (l : Loop α) : Prop :=
  match l.pos with
  | .top => ∃ k : Nat, k ≤ 2 ^ 31 ∧ (k < 2 ^ 31 → l.order.toInt = k) ∧
      l.executed = passes ActionEntry.key scan k
  | .entry i => ∃ k : Nat, k < 2 ^ 31 ∧ l.order.toInt = k ∧ i ≤ scan.length ∧
      l.executed = passes ActionEntry.key scan k
        ++ (scan.take i).filter fun e => e.key = (k : Int)

theorem inv_start (scan : List (ActionEntry α)) : (start : Loop α).Inv scan :=
  ⟨0, by omega, fun _ => rfl, rfl⟩

theorem toInt_succ (o : Int32) (k : Nat) (h : o.toInt = k) (hk : k + 1 < 2 ^ 31) :
    (o + 1).toInt = (k + 1 : Nat) := by
  rw [Int32.toInt_add, h]
  show ((k : Int) + 1).bmod (2 ^ 32) = _
  rw [Int.bmod_eq_of_le (by omega) (by omega)]
  rfl

theorem order_eq_iff (e : ActionEntry α) (o : Int32) (k : Nat) (h : o.toInt = k) :
    e.order = o ↔ e.key = k := by
  unfold ActionEntry.key
  rw [← h, Int32.toInt_inj]

theorem filter_take_succ (scan : List (ActionEntry α)) (p : ActionEntry α → Bool) (i : Nat)
    (e : ActionEntry α) (h : scan[i]? = some e) :
    (scan.take (i + 1)).filter p = (scan.take i).filter p ++ if p e then [e] else [] := by
  rw [List.take_add_one, h, List.filter_append]
  cases hp : p e <;> simp [hp]

/-- what a step can do -/
theorem next_cases (scan : List (ActionEntry α)) (l : Loop α) :
    (l.pos = .top ∧ l.executed.length = scan.length ∧ l.next scan = .exit) ∨
    (l.pos = .top ∧ l.executed.length ≠ scan.length ∧
      l.next scan = .move { l with pos := .entry 0 }) ∨
    (∃ i, l.pos = .entry i ∧ scan[i]? = none ∧
      l.next scan = .move { l with pos := .top, order := l.order + 1 }) ∨
    (∃ i e, l.pos = .entry i ∧ scan[i]? = some e ∧ e.order = l.order ∧
      l.next scan = .call e { l with pos := .entry (i + 1), executed := l.executed ++ [e] }) ∨
    (∃ i e, l.pos = .entry i ∧ scan[i]? = some e ∧ e.order ≠ l.order ∧
      l.next scan = .move { l with pos := .entry (i + 1) }) := by
  cases hp : l.pos with
  | top =>
    by_cases hl : l.executed.length = scan.length
    · exact Or.inl ⟨rfl, hl, by simp only [next, hp, hl, if_true]⟩
    · exact Or.inr (Or.inl ⟨rfl, hl, by simp only [next, hp, hl, if_false]⟩)
  | entry i =>
    refine Or.inr (Or.inr ?_)
    cases he : scan[i]? with
    | none => exact Or.inl ⟨i, rfl, he, by simp only [next, hp, he]⟩
    | some e =>
      refine Or.inr ?_
      by_cases ho : e.order = l.order
      · exact Or.inl ⟨i, e, rfl, he, ho, by simp only [next, hp, he, ho, if_true]⟩
      · exact Or.inr ⟨i, e, rfl, he, ho, by simp only [next, hp, he, ho, if_false]⟩

section
variable {scan : List (ActionEntry α)} {l l' : Loop α} {e : ActionEntry α}

theorem inv_pos (h : l.Inv scan) (hp : l.pos = .top) :
    ∃ k : Nat, k ≤ 2 ^ 31 ∧ (k < 2 ^ 31 → l.order.toInt = k) ∧
      l.executed = passes ActionEntry.key scan k := by
  unfold Inv at h
  rwa [hp] at h

theorem inv_entry {i : Nat} (h : l.Inv scan) (hp : l.pos = .entry i) :
    ∃ k : Nat, k < 2 ^ 31 ∧ l.order.toInt = k ∧ i ≤ scan.length ∧
      l.executed = passes ActionEntry.key scan k
        ++ (scan.take i).filter fun e => e.key = (k : Int) := by
  unfold Inv at h
  rwa [hp] at h

theorem executed_move (hn : l.next scan = .move l') : l'.executed = l.executed := by
  rcases next_cases scan l with ⟨_, _, hx⟩ | ⟨_, _, hx⟩ | ⟨i, _, _, hx⟩ |
      ⟨i, e, _, _, _, hx⟩ | ⟨i, e, _, _, _, hx⟩ <;>
    rw [hx] at hn <;> cases hn <;> rfl

theorem executed_call (hn : l.next scan = .call e l') : l'.executed = l.executed ++ [e] := by
  rcases next_cases scan l with ⟨_, _, hx⟩ | ⟨_, _, hx⟩ | ⟨i, _, _, hx⟩ |
      ⟨i, e', _, _, _, hx⟩ | ⟨i, e', _, _, _, hx⟩ <;>
    rw [hx] at hn <;> cases hn
  rfl

theorem lt_of_length_ne (h0 : ∀ e ∈ scan, 0 ≤ e.key) {k : Nat} (hk : k ≤ 2 ^ 31)
    (h : (passes ActionEntry.key scan k).length ≠ scan.length) : k < 2 ^ 31 := by
  rcases Nat.lt_or_eq_of_le hk with hlt | heq
  · exact hlt
  · refine absurd ((passes_length ActionEntry.key scan k).mpr fun e he => ⟨h0 e he, ?_⟩) h
    rw [heq]
    exact e.key_lt

theorem inv_move (h0 : ∀ e ∈ scan, 0 ≤ e.key) (h : l.Inv scan) (hn : l.next scan = .move l') :
    l'.Inv scan := by
  rcases next_cases scan l with ⟨_, _, hx⟩ | ⟨hp, hl, hx⟩ | ⟨i, hp, he, hx⟩ |
      ⟨i, e, _, _, _, hx⟩ | ⟨i, e, hp, he, ho, hx⟩ <;>
    rw [hx] at hn <;> cases hn
  · obtain ⟨k, hk, hko, hex⟩ := inv_pos h hp
    have hlt : k < 2 ^ 31 := lt_of_length_ne h0 hk (by rw [← hex]; exact hl)
    exact ⟨k, hlt, hko hlt, Nat.zero_le _, by rw [List.take_zero, List.filter_nil]; simpa using hex⟩
  · obtain ⟨k, hk, hko, hi, hex⟩ := inv_entry h hp
    rw [List.getElem?_eq_none_iff] at he
    refine ⟨k + 1, hk, fun hlt => toInt_succ _ k hko hlt, ?_⟩
    rw [passes_succ, ← List.take_of_length_le he]
    simpa [List.take_of_length_le he] using hex
  · obtain ⟨k, hk, hko, hi, hex⟩ := inv_entry h hp
    have hlt := (List.getElem?_eq_some_iff.mp he).1
    refine ⟨k, hk, hko, hlt, ?_⟩
    have hne : ¬ e.key = k := fun hc => ho ((order_eq_iff e _ k hko).mpr hc)
    rw [filter_take_succ scan _ i e he, if_neg (by simpa using hne), List.append_nil]
    exact hex

theorem inv_call (h : l.Inv scan) (hn : l.next scan = .call e l') : l'.Inv scan := by
  rcases next_cases scan l with ⟨_, _, hx⟩ | ⟨_, _, hx⟩ | ⟨i, _, _, hx⟩ |
      ⟨i, e', hp, he, ho, hx⟩ | ⟨i, e', _, _, _, hx⟩ <;>
    rw [hx] at hn <;> cases hn
  obtain ⟨k, hk, hko, hi, hex⟩ := inv_entry h hp
  have hlt := (List.getElem?_eq_some_iff.mp he).1
  refine ⟨k, hk, hko, hlt, ?_⟩
  have heq : e.key = k := (order_eq_iff e _ k hko).mp ho
  rw [filter_take_succ scan _ i e he, if_pos (by simpa using heq), ← List.append_assoc, ← hex]

/-- the entry called is one of the list, and every entry of a lower order has been executed, as
often as it was registered -/
theorem lower_executed [DecidableEq α] (h : l.Inv scan) (hn : l.next scan = .call e l') :
    e ∈ scan ∧ ∀ e', 0 ≤ e'.key → e'.key < e.key → l.executed.count e' = scan.count e' := by
  rcases next_cases scan l with ⟨_, _, hx⟩ | ⟨_, _, hx⟩ | ⟨i, _, _, hx⟩ |
      ⟨i, e', hp, he, ho, hx⟩ | ⟨i, e', _, _, _, hx⟩ <;>
    rw [hx] at hn <;> cases hn
  obtain ⟨k, _, hko, _, hex⟩ := inv_entry h hp
  have heq : e.key = k := (order_eq_iff e _ k hko).mp ho
  refine ⟨List.mem_of_getElem? he, fun e' h0 hlt => ?_⟩
  have hz : ((scan.take i).filter fun e => e.key = (k : Int)).count e' = 0 := by
    rw [List.count_eq_zero, List.mem_filter, decide_eq_true_eq]
    rintro ⟨_, hk⟩
    omega
  have hf := congrArg (List.count e') (passes_filter ActionEntry.key scan k e'.key)
  rw [if_pos (by omega), List.count_filter (by simp), List.count_filter (by simp)] at hf
  rw [hex, List.count_append, hz, hf, Nat.add_zero]

theorem exit_executed (h : l.Inv scan) (hn : l.next scan = .exit) :
    ∃ k : Nat, l.executed = passes ActionEntry.key scan k ∧
      ∀ e ∈ scan, 0 ≤ e.key ∧ e.key < k := by
  rcases next_cases scan l with ⟨hp, hl, _⟩ | ⟨_, _, hx⟩ | ⟨i, _, _, hx⟩ |
      ⟨i, e', _, _, _, hx⟩ | ⟨i, e', _, _, _, hx⟩ <;>
    try (rw [hx] at hn; cases hn)
  obtain ⟨k, _, _, hex⟩ := inv_pos h hp
  rw [hex] at hl
  exact ⟨k, hex, (passes_length _ _ _).mp hl⟩

/-! ## termination -/

/-- an upper bound of the number of steps that are left -/
def rank (scan : List (ActionEntry α)) (l : Loop α) : Nat :=
  match l.pos with
  | .top =>
    if l.executed.length = scan.length then 0
    else (2 ^ 31 - l.order.toInt).toNat * (scan.length + 2)
  | .entry i => (2 ^ 31 - l.order.toInt - 1).toNat * (scan.length + 2) + (scan.length - i) + 1

theorem rank_top_le (scan : List (ActionEntry α)) (l : Loop α) (hp : l.pos = .top) (m : Nat)
    (hm : l.executed.length ≠ scan.length → (2 ^ 31 - l.order.toInt).toNat ≤ m) :
    l.rank scan ≤ m * (scan.length + 2) := by
  unfold rank
  rw [hp]
  show (if l.executed.length = scan.length then 0 else _) ≤ _
  split
  · exact Nat.zero_le _
  · rename_i hl
    exact Nat.mul_le_mul_right _ (hm hl)

/-- a step that does not leave the loop lowers the rank -/
theorem rank_next (h0 : ∀ e ∈ scan, 0 ≤ e.key) (h : l.Inv scan)
    (hn : l.next scan = .move l' ∨ ∃ e, l.next scan = .call e l') :
    l'.rank scan < l.rank scan := by
  rcases next_cases scan l with ⟨_, _, hx⟩ | ⟨hp, hl, hx⟩ | ⟨i, hp, he, hx⟩ |
      ⟨i, e, hp, he, ho, hx⟩ | ⟨i, e, hp, he, ho, hx⟩ <;>
    rw [hx] at hn
  · rcases hn with hn | ⟨_, hn⟩ <;> cases hn
  · rcases hn with hn | ⟨_, hn⟩ <;> cases hn
    obtain ⟨k, hk, hko, hex⟩ := inv_pos h hp
    have hlt : k < 2 ^ 31 := lt_of_length_ne h0 hk (by rw [← hex]; exact hl)
    obtain ⟨n, hn⟩ : ∃ n, (2 ^ 31 - l.order.toInt).toNat = n + 1 :=
      ⟨2 ^ 31 - k - 1, by rw [hko hlt]; omega⟩
    have hn' : (2 ^ 31 - l.order.toInt - 1).toNat = n := by omega
    simp only [rank, hp, hl, if_false, hn, hn', Nat.add_mul, Nat.one_mul]
    omega
  · rcases hn with hn | ⟨_, hn⟩ <;> cases hn
    obtain ⟨k, hk, hko, hi, hex⟩ := inv_entry h hp
    rw [List.getElem?_eq_none_iff] at he
    have hle := rank_top_le scan { l with pos := .top, order := l.order + 1 } rfl
      (2 ^ 31 - l.order.toInt - 1).toNat ?_
    · refine Nat.lt_of_le_of_lt hle ?_
      simp only [rank, hp]
      omega
    · intro hne
      have hs : k + 1 < 2 ^ 31 := by
        apply lt_of_length_ne h0 hk
        rw [passes_succ]
        rw [hex, List.take_of_length_le he] at hne
        exact hne
      have ho := toInt_succ _ k hko hs
      show (2 ^ 31 - (l.order + 1).toInt).toNat ≤ _
      rw [ho, hko]
      omega
  · rcases hn with hn | ⟨_, hn⟩ <;> cases hn
    have hlt := (List.getElem?_eq_some_iff.mp he).1
    simp only [rank, hp]
    omega
  · rcases hn with hn | ⟨_, hn⟩ <;> cases hn
    have hlt := (List.getElem?_eq_some_iff.mp he).1
    simp only [rank, hp]
    omega

end

end Loop

end XCalls
