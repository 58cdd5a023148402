import XCalls.Lib.Links
import XCalls.Lib.EventSys
import XCalls.Core.Stats

/-!
# The list of thread statistics

`stats.c`: one record for each thread, linked in the order of creation.  A record is named by its
address.

* `StatsMgr`        `struct txc_statsmgr_s`, with the link fields of all records;
* `statsThreadstatCreateLinks`  the links that `txc_stats_threadstat_create` writes, on the memory
                    that `MALLOC` returns (the contents of a record are `statsThreadstatCreate`);
* `statsmgrDestroyLoop`     the loop of `txc_statsmgr_destroy`;
* `StatsListExact`  the list is the list of the records, and the loops go through it;
* `endLink`         what the last record points to: `next` is set for the first record only;
* `stats_list_iff`  the list is exact when that is `NULL`; `stats_list_garbage` when it is not.
-/

set_option linter.unusedSectionVars false

namespace XCalls
open Links EventSys

structure StatsMgr where
  allocThreadstatNum : UInt32
  allocThreadstatListHead : Option Nat
  allocThreadstatListTail : Option Nat
  next : Nat → Option Nat
  prev : Nat → Option Nat

/-- `txc_statsmgr_create` -/
def statsmgrCreate : StatsMgr := ⟨0, none, none, fun _ => none, fun _ => none⟩

/-- the memory of a record: its address, and what is at the place of its links -/
structure RecordMem where
  addr : Nat
  next : Option Nat
  prev : Option Nat
  deriving DecidableEq

/-- the list part of `txc_stats_threadstat_create`; an assertion that fails and a `NULL` that is followed are `none` -/
def statsThreadstatCreateLinks (m : StatsMgr) (r : RecordMem) : Option StatsMgr :=
  let next := Function.update m.next r.addr r.next
  let prev := Function.update m.prev r.addr r.prev
  match m.allocThreadstatListHead, m.allocThreadstatListTail with
  | none, none => some
      { allocThreadstatNum := m.allocThreadstatNum + 1
        allocThreadstatListHead := some r.addr
        allocThreadstatListTail := some r.addr
        next := Function.update next r.addr none
        prev := Function.update prev r.addr none }
  | some _, some t => some
      { m with
        allocThreadstatNum := m.allocThreadstatNum + 1
        allocThreadstatListTail := some r.addr
        next := Function.update next t (some r.addr)
        prev := Function.update prev r.addr (some t) }
  | _, _ => none

/-- the loop of `txc_statsmgr_destroy`: the records that are freed; `none` when the fuel runs out or
a record is read after it was freed -/
def statsmgrDestroyLoop (m : StatsMgr) : Nat → List Nat → Option Nat → Option (List Nat)
  | _, freed, none => some freed
  | 0, _, some _ => none
  | fuel + 1, freed, some threadstat =>
    if threadstat ∈ freed then none
    else statsmgrDestroyLoop m fuel (freed ++ [threadstat]) (m.next threadstat)

/-- the list holds the records in this order and ends, its length is counted, and the loops of
`txc_stats_print`, `stats_summarize_all` and `txc_statsmgr_destroy` go through these records -/
structure StatsListExact (m : StatsMgr) (records : List Nat) : Prop where
  nodup : records.Nodup
  walk : ∀ fuel ≥ records.length, visit m.next fuel m.allocThreadstatListHead = some records
  num : m.allocThreadstatNum.toNat = records.length
  destroy : ∀ fuel ≥ records.length,
    statsmgrDestroyLoop m fuel [] m.allocThreadstatListHead = some records

/-- what the last record points to -/
def endLink (rs : List RecordMem) : Option Nat := rs.tail.getLast?.bind RecordMem.next

/-! ## the representation -/

/-- the records `rs` have been created one after the other -/
structure StatsRep (m : StatsMgr) (rs : List RecordMem) : Prop where
  forth : Seg m.next m.allocThreadstatListHead (rs.map RecordMem.addr) (endLink rs)
  back : Back m.prev none (rs.map RecordMem.addr)
  tail : m.allocThreadstatListTail = (rs.map RecordMem.addr).getLast?
  num : m.allocThreadstatNum.toNat = rs.length % 2 ^ 32

theorem rep_statsmgrCreate : StatsRep statsmgrCreate [] := ⟨rfl, trivial, rfl, rfl⟩

theorem endLink_append (rs : List RecordMem) (r r' : RecordMem) :
    endLink (rs ++ [r] ++ [r']) = r'.next := by
  have htail : (rs ++ [r] ++ [r']).tail = (rs ++ [r]).tail ++ [r'] :=
    List.tail_append_of_ne_nil (by simp)
  rw [endLink, htail, List.getLast?_concat, Option.bind_some]

/-- **One more record** is put behind the list. -/
theorem StatsRep.create {m : StatsMgr} {rs : List RecordMem} {r : RecordMem} (h : StatsRep m rs)
    (hnd : ((rs ++ [r]).map RecordMem.addr).Nodup) :
    ∃ m', statsThreadstatCreateLinks m r = some m' ∧ StatsRep m' (rs ++ [r]) := by
  cases rs using List.reverseRecOn with
  | nil =>
    have hhead : m.allocThreadstatListHead = none := h.forth
    have htail : m.allocThreadstatListTail = none := h.tail
    refine ⟨_, by rw [statsThreadstatCreateLinks, hhead, htail], ?_, ?_, rfl, ?_⟩
    · exact ⟨rfl, Function.update_self ..⟩
    · exact ⟨Function.update_self .., trivial⟩
    · exact toNat_succ_mod h.num
  | append_singleton rs t =>
    rw [List.map_append, List.map_append, List.map_singleton, List.map_singleton] at hnd
    have hdis := List.nodup_append.mp hnd
    have hr : r.addr ∉ rs.map RecordMem.addr ++ [t.addr] := fun hm =>
      hdis.2.2 _ hm _ (List.mem_singleton.mpr rfl) rfl
    have hrt : r.addr ≠ t.addr := fun he => hr (he ▸ List.mem_append_right _ List.mem_cons_self)
    have hmap : (rs ++ [t]).map RecordMem.addr = rs.map RecordMem.addr ++ [t.addr] := by simp
    have hforth := h.forth
    have hback := h.back
    have htail := h.tail
    rw [hmap] at hforth hback htail
    rw [List.getLast?_concat] at htail
    obtain ⟨a, hhead⟩ : ∃ a, m.allocThreadstatListHead = some a := by
      cases hl : rs.map RecordMem.addr with
      | nil =>
        rw [hl] at hforth
        exact ⟨_, hforth.1⟩
      | cons b l =>
        rw [hl] at hforth
        exact ⟨_, hforth.1⟩
    rw [hhead] at hforth
    refine ⟨_, by rw [statsThreadstatCreateLinks, hhead, htail], ?_, ?_, ?_, ?_⟩
    · rw [endLink_append, List.map_append, hmap]
      refine (seg_append _ _ _ (rs.map RecordMem.addr ++ [t.addr]) [r.addr]).mpr
        ⟨some r.addr, ?_, rfl, ?_⟩
      · exact (hforth.update hr r.next).redirect hdis.1 (some r.addr)
      · exact (Function.update_of_ne hrt _ _).trans (Function.update_self ..)
    · rw [List.map_append, hmap]
      have hsnoc := (hback.update hr r.prev).snoc hr
      rwa [List.getLast?_concat, Option.some_or] at hsnoc
    · simp
    · rw [List.length_append]
      exact toNat_succ_mod h.num

theorem rep_stats_run (rs : List RecordMem) (hnd : (rs.map RecordMem.addr).Nodup) :
    ∃ m, run statsThreadstatCreateLinks statsmgrCreate rs = some m ∧ StatsRep m rs := by
  induction rs using List.reverseRecOn with
  | nil => exact ⟨_, rfl, rep_statsmgrCreate⟩
  | append_singleton rs r ih =>
    have hnd' : (rs.map RecordMem.addr).Nodup := by
      rw [List.map_append] at hnd
      exact (List.nodup_append.mp hnd).1
    obtain ⟨m, hrun, hrep⟩ := ih hnd'
    obtain ⟨m', hstep, hrep'⟩ := hrep.create hnd
    refine ⟨m', ?_, hrep'⟩
    rw [run_append, hrun, Option.bind_some, run_cons, hstep]
    rfl

/-! ## the loops -/

/-- a walk that ends has gone through the list -/
theorem seg_of_visit {next : Nat → Option Nat} (fuel : Nat) :
    ∀ {h : Option Nat} {l : List Nat}, visit next fuel h = some l → Seg next h l none := by
  induction fuel with
  | zero =>
    intro h l hv
    cases h with
    | none =>
      cases hv
      rfl
    | some a => cases hv
  | succ fuel ih =>
    intro h l hv
    cases h with
    | none =>
      cases hv
      rfl
    | some a =>
      obtain ⟨l', hv', rfl⟩ := Option.map_eq_some_iff.mp hv
      exact ⟨rfl, ih hv'⟩

theorem destroyLoop_eq {m : StatsMgr} (l : List Nat) :
    ∀ {h : Option Nat} {freed : List Nat} {fuel : Nat}, Seg m.next h l none → l.length ≤ fuel →
      (freed ++ l).Nodup → statsmgrDestroyLoop m fuel freed h = some (freed ++ l) := by
  induction l with
  | nil =>
    intro h freed fuel hs _ _
    have h0 : h = none := hs
    subst h0
    rw [List.append_nil]
    cases fuel <;> rfl
  | cons a l ih =>
    intro h freed fuel hs hf hnd
    obtain ⟨rfl, hs⟩ := hs
    obtain ⟨f, rfl⟩ : ∃ f, fuel = f + 1 := ⟨fuel - 1, by simp at hf; omega⟩
    have ha : a ∉ freed := fun hm =>
      (List.nodup_append.mp hnd).2.2 a hm a List.mem_cons_self rfl
    have happ : freed ++ a :: l = freed ++ [a] ++ l := by simp
    rw [statsmgrDestroyLoop, if_neg ha, happ]
    rw [happ] at hnd
    exact ih hs (by simpa using hf) hnd

/-- **The list of thread statistics.**  For every sequence of creations, whatever the memory of the
records held: the list is exact exactly when the memory of the last record, unless it is the only
one, held `NULL` at `next`, and the counter has not wrapped around. -/
theorem stats_list_iff (rs : List RecordMem) (hnd : (rs.map RecordMem.addr).Nodup) :
    ∃ m, run statsThreadstatCreateLinks statsmgrCreate rs = some m ∧
      (StatsListExact m (rs.map RecordMem.addr) ↔ endLink rs = none ∧ rs.length < 2 ^ 32) := by
  obtain ⟨m, hrun, hrep⟩ := rep_stats_run rs hnd
  refine ⟨m, hrun, ?_, ?_⟩
  · intro h
    constructor
    · have hseg := seg_of_visit _ (h.walk _ (Nat.le_refl _))
      have hforth := hrep.forth
      cases rs using List.reverseRecOn with
      | nil => rfl
      | append_singleton rs r =>
        rw [List.map_append, List.map_singleton] at hseg hforth
        rw [← hforth.last, hseg.last]
    · have hnum := h.num
      rw [hrep.num, List.length_map] at hnum
      exact hnum ▸ Nat.mod_lt _ (by decide)
  · rintro ⟨hend, hlen⟩
    have hforth := hrep.forth
    rw [hend] at hforth
    refine ⟨hnd, fun fuel hf => hforth.visit_eq hf, ?_, fun fuel hf => ?_⟩
    · rw [hrep.num, List.length_map, Nat.mod_eq_of_lt hlen]
    · exact destroyLoop_eq _ hforth hf hnd

/-- three records in memory of zeros -/
theorem stats_list_iff_zeros :
    ∃ m, run statsThreadstatCreateLinks statsmgrCreate
        [⟨100, some 7, some 7⟩, ⟨200, none, none⟩, ⟨300, none, none⟩] = some m ∧
      StatsListExact m [100, 200, 300] := by
  obtain ⟨m, hrun, hiff⟩ := stats_list_iff
    [⟨100, some 7, some 7⟩, ⟨200, none, none⟩, ⟨300, none, none⟩] (by decide)
  exact ⟨m, hrun, hiff.mpr ⟨rfl, by decide⟩⟩

/-- the second record lies in memory that held the address of the first one: no walk ends, and the
loop of `txc_statsmgr_destroy` reads a record that it has freed -/
theorem stats_list_garbage :
    ∃ m, run statsThreadstatCreateLinks statsmgrCreate [⟨100, none, none⟩, ⟨200, some 100, none⟩]
        = some m ∧
      (∀ fuel, visit m.next fuel m.allocThreadstatListHead = none) ∧
      ∀ fuel, statsmgrDestroyLoop m fuel [] m.allocThreadstatListHead = none := by
  refine ⟨_, rfl, fun fuel => ?_, fun fuel => ?_⟩
  · -- neither record leads to the end
    have hboth : ∀ next : Nat → Option Nat, next 100 = some 200 → next 200 = some 100 →
        ∀ fuel, visit next fuel (some 100) = none ∧ visit next fuel (some 200) = none := by
      intro next h1 h2 fuel
      induction fuel with
      | zero => exact ⟨rfl, rfl⟩
      | succ fuel ih => simp only [visit, h1, h2, ih, Option.map_none, and_self]
    exact (hboth _ rfl rfl fuel).1
  · rcases fuel with _ | _ | _ | fuel <;> rfl

end XCalls
