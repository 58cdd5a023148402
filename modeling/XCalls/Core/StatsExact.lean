import XCalls.Core.NoRetry

/-!
# Per-thread statistics

With statistics enabled, what a thread has collected against the transactions it has committed.

* `countersAt`      the counters of the committed transactions of a location;
* `Aggregates`      count, total, minimum and maximum of a list of counters, in 32 bits;
* `ThreadExact`     what a thread has collected is what its committed transactions add up to;
* `StatsRegs`       the statistics manager's actions before and after `txc_tx_post_begin`;
* `StatInv`         the invariant of a thread;
* `stats_exact`     every container and the thread's totals, in every run;
* `stats_count_wraps`   2³² commits leave the count at 0.
-/

set_option linter.unusedSectionVars false

namespace XCalls
open EventSys
variable {α W : Type} {n : Nat}

/-! ## aggregates -/

def collected (l : List UInt32) : Stat := l.foldl Stat.collect Stat.zero

theorem collected_snoc (l : List UInt32) (c : UInt32) :
    collected (l ++ [c]) = (collected l).collect c := by
  unfold collected
  rw [List.foldl_append]
  rfl

/-- `count` and `stats` are what the counters in `l` add up to -/
structure Aggregates (count : UInt32) (stats : StatEntry → Stat)
    (l : List (StatEntry → UInt32)) : Prop where
  count : count.toNat = l.length % 2 ^ 32
  total : ∀ i, (stats i).total.toNat = (l.map fun c => (c i).toNat).sum % 2 ^ 32
  min_le : ∀ i, ∀ c ∈ l, (stats i).min ≤ c i
  min_mem : ∀ i, l ≠ [] → ∃ c ∈ l, (stats i).min = c i
  le_max : ∀ i, ∀ c ∈ l, c i ≤ (stats i).max
  max_mem : ∀ i, l ≠ [] → ∃ c ∈ l, (stats i).max = c i

theorem collected_total (l : List UInt32) :
    (collected l).total.toNat = (l.map UInt32.toNat).sum % 2 ^ 32 := by
  induction l using List.reverseRecOn with
  | nil => rfl
  | append_singleton l c ih =>
    rw [collected_snoc]
    show ((collected l).total + c).toNat = _
    rw [UInt32.toNat_add, ih, List.map_append, List.sum_append, Nat.mod_add_mod]
    simp

theorem collected_min_le (l : List UInt32) : ∀ c ∈ l, (collected l).min ≤ c := by
  induction l using List.reverseRecOn with
  | nil => exact fun c hc => by cases hc
  | append_singleton l d ih =>
    intro c hc
    rw [collected_snoc]
    show (if (collected l).min < d then (collected l).min else d) ≤ c
    rcases List.mem_append.mp hc with hc | hc
    · split
      · exact ih c hc
      · rename_i hd
        exact UInt32.le_trans (UInt32.not_lt.mp hd) (ih c hc)
    · rw [List.mem_singleton.mp hc]
      split
      · exact UInt32.le_of_lt ‹_›
      · exact UInt32.le_refl d

theorem collected_le_max (l : List UInt32) : ∀ c ∈ l, c ≤ (collected l).max := by
  induction l using List.reverseRecOn with
  | nil => exact fun c hc => by cases hc
  | append_singleton l d ih =>
    intro c hc
    rw [collected_snoc]
    show c ≤ (if (collected l).max > d then (collected l).max else d)
    rcases List.mem_append.mp hc with hc | hc
    · split
      · exact ih c hc
      · rename_i hd
        exact UInt32.le_trans (ih c hc) (UInt32.not_lt.mp hd)
    · rw [List.mem_singleton.mp hc]
      split
      · exact UInt32.le_of_lt ‹_›
      · exact UInt32.le_refl d

/-- a fold that keeps one of two values each time ends with a value of the list -/
theorem collected_mem (l : List UInt32) (hl : l ≠ []) :
    (collected l).min ∈ l ∧ (collected l).max ∈ l := by
  induction l using List.reverseRecOn with
  | nil => exact absurd rfl hl
  | append_singleton l d ih =>
    rw [collected_snoc]
    show (if (collected l).min < d then (collected l).min else d) ∈ l ++ [d] ∧
      (if (collected l).max > d then (collected l).max else d) ∈ l ++ [d]
    by_cases hnil : l = []
    · subst hnil
      have h1 : ¬ (0xFFFFFFFF : UInt32) < d := by
        rw [UInt32.lt_iff_toNat_lt]
        have := d.toNat_lt
        simp only [UInt32.reduceToNat]
        omega
      have h2 : ¬ (0 : UInt32) > d := UInt32.not_lt.mpr (UInt32.zero_le)
      rw [show (collected []).min = 0xFFFFFFFF from rfl, show (collected []).max = 0 from rfl,
        if_neg h1, if_neg h2]
      exact ⟨List.mem_singleton.mpr rfl, List.mem_singleton.mpr rfl⟩
    · obtain ⟨h1, h2⟩ := ih hnil
      constructor
      · split
        · exact List.mem_append_left _ h1
        · simp
      · split
        · exact List.mem_append_left _ h2
        · simp

/-- the count and the statistics after the commits of `l` -/
theorem aggregates_collected {count : UInt32} {stats : StatEntry → Stat}
    {l : List (StatEntry → UInt32)} (hc : count.toNat = l.length % 2 ^ 32)
    (hs : ∀ i, stats i = collected (l.map fun c => c i)) : Aggregates count stats l := by
  refine ⟨hc, fun i => ?_, fun i c hm => ?_, fun i hne => ?_, fun i c hm => ?_, fun i hne => ?_⟩
  · rw [hs, collected_total, List.map_map]
    rfl
  · rw [hs]
    exact collected_min_le _ _ (List.mem_map_of_mem hm)
  · have hmem := (collected_mem (l.map fun c => c i) (by simpa using hne)).1
    obtain ⟨c, hm, he⟩ := List.mem_map.mp hmem
    exact ⟨c, hm, by rw [hs, he]⟩
  · rw [hs]
    exact collected_le_max _ _ (List.mem_map_of_mem hm)
  · have hmem := (collected_mem (l.map fun c => c i) (by simpa using hne)).2
    obtain ⟨c, hm, he⟩ := List.mem_map.mp hmem
    exact ⟨c, hm, by rw [hs, he]⟩

/-! ## the commit action -/

/-- the counters of the transactions committed at a location -/
def countersAt (k : UInt32) (commits : List (UInt32 × (StatEntry → UInt32))) :
    List (StatEntry → UInt32) :=
  (commits.filter fun c => c.1 = k).map Prod.snd

theorem countersAt_snoc (k : UInt32) (commits : List (UInt32 × (StatEntry → UInt32)))
    (c : UInt32 × (StatEntry → UInt32)) :
    countersAt k (commits ++ [c])
      = if c.1 = k then countersAt k commits ++ [c.2] else countersAt k commits := by
  unfold countersAt
  rw [List.filter_append]
  by_cases h : c.1 = k <;> simp [h]

structure ContainerExact (k : UInt32) (c : TxStat) (l : List (StatEntry → UInt32)) : Prop where
  srclocStr : c.srclocStr = k
  count : c.count.toNat = l.length % 2 ^ 32
  stats : ∀ i, c.totalStats i = collected (l.map fun c => c i)

structure ThreadExact (s : ThreadStat) (commits : List (UInt32 × (StatEntry → UInt32))) :
    Prop where
  count : s.count.toNat = commits.length % 2 ^ 32
  stats : ∀ i, s.totalStats i = collected (commits.map fun c => c.2 i)
  absent : ∀ k, s.txStats k = none → countersAt k commits = []
  container : ∀ k c, s.txStats k = some c →
    countersAt k commits ≠ [] ∧ ContainerExact k c (countersAt k commits)

theorem threadExact_create : ThreadExact statsThreadstatCreate [] :=
  ⟨rfl, fun _ => rfl, fun _ _ => rfl, fun _ _ h => by cases h⟩

/-- The container of a location is found or made, and `f` takes one more item into it: if every
container held the items `G k` of its location, it holds `G' k` now. -/
theorem containers_snoc {β : Type} {G G' : UInt32 → List β} {P : UInt32 → TxStat → List β → Prop}
    {txStats : FinMap TxStat} (t : TxStat) {b : β} (f : TxStat → TxStat)
    (hG : ∀ k, G' k = if t.srclocStr = k then G k ++ [b] else G k)
    (habsent : ∀ k, txStats k = none → G k = [])
    (hcontainer : ∀ k c, txStats k = some c → G k ≠ [] ∧ P k c (G k))
    (hnew : P t.srclocStr ⟨t.srclocStr, t.srcloc, 0, fun _ => Stat.zero⟩ [])
    (hf : ∀ c, P t.srclocStr c (G t.srclocStr) → P t.srclocStr (f c) (G t.srclocStr ++ [b]))
    {after : FinMap TxStat}
    (hafter : after = Function.update (statsGetTxstatContainer txStats t).2 t.srclocStr
      (some (f (statsGetTxstatContainer txStats t).1))) :
    (∀ k, after k = none → G' k = []) ∧
      ∀ k c, after k = some c → G' k ≠ [] ∧ P k c (G' k) := by
  have hfound : P t.srclocStr (statsGetTxstatContainer txStats t).1 (G t.srclocStr) ∧
      ∀ k ≠ t.srclocStr, (statsGetTxstatContainer txStats t).2 k = txStats k := by
    unfold statsGetTxstatContainer
    cases hc : txStats t.srclocStr with
    | some c => exact ⟨(hcontainer _ c hc).2, fun k _ => rfl⟩
    | none =>
      refine ⟨?_, fun k hk => Function.update_of_ne hk _ _⟩
      rw [habsent _ hc]
      exact hnew
  obtain ⟨hold, hother⟩ := hfound
  subst hafter
  refine ⟨fun k hk => ?_, fun k c hk => ?_⟩
  · by_cases he : k = t.srclocStr
    · rw [he, Function.update_self] at hk
      cases hk
    · rw [Function.update_of_ne he, hother k he] at hk
      rw [hG, if_neg (fun hc => he hc.symm)]
      exact habsent k hk
  · by_cases he : k = t.srclocStr
    · rw [he, Function.update_self, Option.some.injEq] at hk
      rw [he, hG, if_pos rfl, ← hk]
      exact ⟨List.append_ne_nil_of_right_ne_nil _ (List.cons_ne_nil _ _), hf _ hold⟩
    · rw [Function.update_of_ne he, hother k he] at hk
      rw [hG, if_neg (fun hc => he hc.symm)]
      exact hcontainer k c hk

theorem statsmgrCommitAction_txStats (t : TxStat) (s : ThreadStat) :
    (statsmgrCommitAction t s).txStats =
      Function.update (statsGetTxstatContainer s.txStats t).2 t.srclocStr (some
        { (statsGetTxstatContainer s.txStats t).1 with
          count := (statsGetTxstatContainer s.txStats t).1.count + 1
          totalStats := fun i => ((statsGetTxstatContainer s.txStats t).1.totalStats i).collect
            (t.totalStats i).total }) := rfl

/-- **The commit action** adds one transaction. -/
theorem ThreadExact.commit {s : ThreadStat} {commits : List (UInt32 × (StatEntry → UInt32))}
    (h : ThreadExact s commits) (t : TxStat) :
    ThreadExact (statsmgrCommitAction t s)
      (commits ++ [(t.srclocStr, fun i => (t.totalStats i).total)]) := by
  have hf : ∀ c, ContainerExact t.srclocStr c (countersAt t.srclocStr commits) →
      ContainerExact t.srclocStr
        { c with
          count := c.count + 1
          totalStats := fun i => (c.totalStats i).collect (t.totalStats i).total }
        (countersAt t.srclocStr commits ++ [fun i => (t.totalStats i).total]) := by
    intro c hc
    refine ⟨hc.srclocStr, ?_, fun i => ?_⟩
    · rw [List.length_append]
      exact toNat_succ_mod hc.count
    · rw [List.map_append, List.map_singleton, collected_snoc, ← hc.stats]
  obtain ⟨habsent, hcontainer⟩ := containers_snoc t _
    (fun k => countersAt_snoc k commits (t.srclocStr, fun i => (t.totalStats i).total))
    h.absent h.container ⟨rfl, rfl, fun i => rfl⟩ hf (statsmgrCommitAction_txStats t s)
  refine ⟨?_, fun i => ?_, habsent, hcontainer⟩
  · rw [List.length_append]
    exact toNat_succ_mod h.count
  · rw [List.map_append, List.map_singleton, collected_snoc, ← h.stats]
    rfl

/-! ## the actions of an attempt -/

def isStatsCommit (e : ActionEntry (TAct α)) : Bool :=
  match e.function with
  | .other .statsmgrCommit => true
  | _ => false

def isStatsUndo (e : ActionEntry (TAct α)) : Bool :=
  match e.function with
  | .other .statsmgrUndo => true
  | _ => false

section
variable (env : Env α n W)

theorem callEntry_stats (e : ActionEntry (TAct α)) (m : TMach α n W) :
    (callEntry env.exec e m).1.world.txstat
        = (if isStatsUndo e then statsmgrUndoAction m.world.txstat else m.world.txstat) ∧
      (callEntry env.exec e m).1.world.threadstat
        = (if isStatsCommit e then statsmgrCommitAction m.world.txstat m.world.threadstat
          else m.world.threadstat) := by
  have hstore : ∀ (m' : TMach α n W) (p : Option Nat) (v : Int), (m'.store p v).world = m'.world := by
    intro m' p v
    cases p <;> rfl
  unfold callEntry isStatsCommit isStatsUndo
  simp only [hstore]
  cases e.function with
  | sentinelmgrCommit => exact ⟨rfl, rfl⟩
  | sentinelmgrUndo => exact ⟨rfl, rfl⟩
  | other a => cases a <;> exact ⟨rfl, rfl⟩

/-- a list without undo actions of the manager and with one commit action -/
theorem callAll_commit_stats {es : List (ActionEntry (TAct α))} (m : TMach α n W)
    (hno : es.countP isStatsUndo = 0) :
    (callAll env.exec es m).2.world.txstat = m.world.txstat ∧
      (es.countP isStatsCommit = 0 →
        (callAll env.exec es m).2.world.threadstat = m.world.threadstat) ∧
      (es.countP isStatsCommit = 1 →
        (callAll env.exec es m).2.world.threadstat
          = statsmgrCommitAction m.world.txstat m.world.threadstat) := by
  induction es generalizing m with
  | nil => exact ⟨rfl, fun _ => rfl, fun h => by cases h⟩
  | cons e es ih =>
    rw [List.countP_cons] at hno
    have hundo : isStatsUndo e = false := by
      cases hu : isStatsUndo e with
      | false => rfl
      | true => simp [hu] at hno
    have hno' : es.countP isStatsUndo = 0 := by omega
    obtain ⟨h1, h2⟩ := callEntry_stats env e m
    rw [hundo] at h1
    obtain ⟨h3, h4, h5⟩ := ih (callEntry env.exec e m).1 hno'
    have htx : (callEntry env.exec e m).1.world.txstat = m.world.txstat := h1
    show (callAll env.exec es _).2.world.txstat = _ ∧ (_ →
      (callAll env.exec es _).2.world.threadstat = _) ∧ (_ →
      (callAll env.exec es _).2.world.threadstat = _)
    rw [h3, htx, List.countP_cons]
    cases hc : isStatsCommit e with
    | true =>
      rw [hc] at h2
      refine ⟨rfl, fun h => by simp at h, fun h => ?_⟩
      have h0 : es.countP isStatsCommit = 0 := by simpa using h
      exact (h4 h0).trans h2
    | false =>
      rw [hc] at h2
      have h2' : (callEntry env.exec e m).1.world.threadstat = m.world.threadstat := h2
      refine ⟨rfl, fun h => (h4 (by simpa using h)).trans h2', fun h => ?_⟩
      rw [h5 (by simpa using h), htx, h2']

/-- a list with an undo action of the manager and without commit actions -/
theorem callAll_undo_stats {es : List (ActionEntry (TAct α))} (m : TMach α n W)
    (hno : es.countP isStatsCommit = 0) :
    (callAll env.exec es m).2.world.threadstat = m.world.threadstat ∧
      (callAll env.exec es m).2.world.txstat.srclocStr = m.world.txstat.srclocStr ∧
      ((0 < es.countP isStatsUndo ∨ m.world.txstat.totalStats = fun _ => Stat.zero) →
        (callAll env.exec es m).2.world.txstat.totalStats = fun _ => Stat.zero) := by
  induction es generalizing m with
  | nil => exact ⟨rfl, rfl, fun h => h.elim (fun h => by cases h) id⟩
  | cons e es ih =>
    rw [List.countP_cons] at hno
    have hcom : isStatsCommit e = false := by
      cases hc : isStatsCommit e with
      | false => rfl
      | true => simp [hc] at hno
    have hno' : es.countP isStatsCommit = 0 := by omega
    obtain ⟨h1, h2⟩ := callEntry_stats env e m
    rw [hcom] at h2
    obtain ⟨h3, h4, h5⟩ := ih (callEntry env.exec e m).1 hno'
    show (callAll env.exec es _).2.world.threadstat = _ ∧
      (callAll env.exec es _).2.world.txstat.srclocStr = _ ∧ (_ →
      (callAll env.exec es _).2.world.txstat.totalStats = _)
    refine ⟨h3.trans h2, h4.trans ?_, fun h => h5 ?_⟩
    · rw [h1]
      split <;> rfl
    · rw [h1]
      cases hu : isStatsUndo e with
      | true => exact .inr rfl
      | false =>
        refine h.imp (fun hc => ?_) id
        rw [List.countP_cons, hu] at hc
        simpa using hc

/-! ## the registrations of the manager -/

/-- what is registered by the statistics manager: `c` its commit action, `u` its undo action -/
structure StatsRegs (c u : Bool) (txd : TDesc α n) : Prop where
  commitOrder : ∀ e ∈ txd.commitActionList.entries, 0 ≤ e.order
  undoOrder : ∀ e ∈ txd.undoActionList.entries, 0 ≤ e.order
  commits : txd.commitActionList.entries.countP isStatsCommit = c.toNat
  noUndo : txd.commitActionList.entries.countP isStatsUndo = 0
  undos : txd.undoActionList.entries.countP isStatsUndo = u.toNat
  noCommit : txd.undoActionList.entries.countP isStatsCommit = 0
  commitFlag : txd.statsmgrCommitActionRegistered = c
  undoFlag : txd.statsmgrUndoActionRegistered = u
  itmCommit : txd.itmCommit = txd.genericCommitActionRegistered
  itmUndo : txd.itmUndo = txd.genericUndoActionRegistered
  committing : c = true → txd.itmCommit = true
  undoing : u = true → txd.itmUndo = true

theorem Cleared.statsRegs {txd : TDesc α n} (h : Cleared txd) (hc : txd.itmCommit = false)
    (hu : txd.itmUndo = false) : StatsRegs false false txd := by
  obtain ⟨_, _, h3, h4, h5, h6⟩ := h.flags
  refine ⟨?_, ?_, ?_, ?_, ?_, ?_, h4, h3, hc.trans h6.symm, hu.trans h5.symm, ?_, ?_⟩
  · rw [h.commits]
    exact fun e he => by cases he
  · rw [h.undos]
    exact fun e he => by cases he
  · rw [h.commits]
    rfl
  · rw [h.commits]
    rfl
  · rw [h.undos]
    rfl
  · rw [h.undos]
    rfl
  · exact fun hf => by cases hf
  · exact fun hf => by cases hf

theorem SentinelsOnly.statsRegs {c u : Bool} {txd txd' : TDesc α n} (h : SentinelsOnly txd txd')
    (hr : StatsRegs c u txd) : StatsRegs c u txd' := by
  obtain ⟨_, _, _, _, rfl⟩ := h
  exact ⟨hr.commitOrder, hr.undoOrder, hr.commits, hr.noUndo, hr.undos, hr.noCommit,
    hr.commitFlag, hr.undoFlag, hr.itmCommit, hr.itmUndo, hr.committing, hr.undoing⟩

theorem orders_snoc {es : List (ActionEntry (TAct α))} {e : ActionEntry (TAct α)}
    (h : ∀ x ∈ es, 0 ≤ x.order) (he : 0 ≤ e.order) : ∀ x ∈ es ++ [e], 0 ≤ x.order := by
  intro x hx
  rcases List.mem_append.mp hx with hx | hx
  · exact h x hx
  · rw [List.mem_singleton.mp hx]
    exact he

/-- a commit action is registered; `c` says whether it is the one of the manager -/
theorem StatsRegs.registerCommit {u : Bool} {txd : TDesc α n} {e : ActionEntry (TAct α)}
    {c d : Bool} (h : StatsRegs c u txd) (ho : 0 ≤ e.order) (hu : isStatsUndo e = false)
    (hc : c.toNat + (isStatsCommit e).toNat = d.toNat) :
    StatsRegs d u { txRegisterCommitAction txd e with statsmgrCommitActionRegistered := d } := by
  rw [txRegisterCommitAction_eq]
  have hitm : (txd.itmCommit || !txd.genericCommitActionRegistered) = true := by
    rw [h.itmCommit]
    cases txd.genericCommitActionRegistered <;> rfl
  refine ⟨?_, h.undoOrder, ?_, ?_, h.undos, h.noCommit, rfl, h.undoFlag, hitm, h.itmUndo,
    fun _ => hitm, h.undoing⟩
  · rw [entries_registerAction]
    exact orders_snoc h.commitOrder ho
  · rw [entries_registerAction, List.countP_append, h.commits, ← hc]
    cases hs : isStatsCommit e <;> simp [hs]
  · rw [entries_registerAction, List.countP_append, h.noUndo]
    simp [hu]

/-- an undo action is registered; `u` says whether it is the one of the manager -/
theorem StatsRegs.registerUndo {c : Bool} {txd : TDesc α n} {e : ActionEntry (TAct α)}
    {u v : Bool} (h : StatsRegs c u txd) (ho : 0 ≤ e.order) (hc : isStatsCommit e = false)
    (hu : u.toNat + (isStatsUndo e).toNat = v.toNat) :
    StatsRegs c v { txRegisterUndoAction txd e with statsmgrUndoActionRegistered := v } := by
  rw [txRegisterUndoAction_eq]
  have hitm : (txd.itmUndo || !txd.genericUndoActionRegistered) = true := by
    rw [h.itmUndo]
    cases txd.genericUndoActionRegistered <;> rfl
  refine ⟨h.commitOrder, ?_, h.commits, h.noUndo, ?_, ?_, h.commitFlag, rfl, h.itmCommit, hitm,
    h.committing, fun _ => hitm⟩
  · rw [entries_registerAction]
    exact orders_snoc h.undoOrder ho
  · rw [entries_registerAction, List.countP_append, h.undos, ← hu]
    cases hs : isStatsUndo e <;> simp [hs]
  · rw [entries_registerAction, List.countP_append, h.noCommit]
    simp [hc]

theorem StatsRegs.otherCommit {c u : Bool} {txd : TDesc α n} {e : ActionEntry (TAct α)}
    (h : StatsRegs c u txd) (ho : 0 ≤ e.order) (hu : isStatsUndo e = false)
    (hc : isStatsCommit e = false) : StatsRegs c u (txRegisterCommitAction txd e) := by
  have hr := h.registerCommit (d := c) ho hu (by rw [hc]; rfl)
  have hflag : { txRegisterCommitAction txd e with statsmgrCommitActionRegistered := c }
      = txRegisterCommitAction txd e := by
    rw [txRegisterCommitAction_eq, ← h.commitFlag]
  rwa [hflag] at hr

theorem StatsRegs.otherUndo {c u : Bool} {txd : TDesc α n} {e : ActionEntry (TAct α)}
    (h : StatsRegs c u txd) (ho : 0 ≤ e.order) (hu : isStatsUndo e = false)
    (hc : isStatsCommit e = false) : StatsRegs c u (txRegisterUndoAction txd e) := by
  have hr := h.registerUndo (v := u) ho hc (by rw [hu]; rfl)
  have hflag : { txRegisterUndoAction txd e with statsmgrUndoActionRegistered := u }
      = txRegisterUndoAction txd e := by
    rw [txRegisterUndoAction_eq, ← h.undoFlag]
  rwa [hflag] at hr

theorem StatsRegs.sentinels {c u : Bool} {txd : TDesc α n} (h : StatsRegs c u txd) :
    StatsRegs c u (registerSentinelmgrUndoAction (registerSentinelmgrCommitAction txd)) := by
  have h1 : StatsRegs c u (registerSentinelmgrCommitAction txd) := by
    unfold registerSentinelmgrCommitAction
    split
    · have hr := h.otherCommit (e := ⟨.sentinelmgrCommit, none, sentinelmgrActionOrder⟩)
        (show (0 : Int32) ≤ 2 by decide) rfl rfl
      exact SentinelsOnly.statsRegs ⟨_, _, _, _, rfl⟩ hr
    · exact h
  unfold registerSentinelmgrUndoAction
  split
  · have hr := h1.otherUndo (e := ⟨.sentinelmgrUndo, none, sentinelmgrActionOrder⟩)
      (show (0 : Int32) ≤ 2 by decide) rfl rfl
    exact SentinelsOnly.statsRegs ⟨_, _, _, _, rfl⟩ hr
  · exact h1

/-- `txc_tx_post_begin` registers the manager's actions if they are not registered yet -/
theorem StatsRegs.postBegin {b : Bool} {m : TMach α n W} (h : StatsRegs b b m.txd) :
    StatsRegs true true (txPostBegin true m).txd := by
  have h1 : StatsRegs b b (sentinelTransactionPostbegin m.txd) := by
    unfold sentinelTransactionPostbegin
    split
    · exact h.sentinels
    · exact h
  have h2 : StatsRegs true b
      (registerStatsmgrCommitAction (sentinelTransactionPostbegin m.txd)) := by
    unfold registerStatsmgrCommitAction
    rw [h1.commitFlag]
    cases b with
    | false => exact h1.registerCommit (show (0 : Int32) ≤ 3 by decide) rfl rfl
    | true => exact h1
  show StatsRegs true true (registerStatsmgrUndoAction (registerStatsmgrCommitAction _))
  unfold registerStatsmgrUndoAction
  rw [h2.undoFlag]
  cases b with
  | false => exact h2.registerUndo (show (0 : Int32) ≤ 3 by decide) rfl rfl
  | true => exact h2

theorem StatsRegs.abort {c u : Bool} {m : TMach α n W} (h : StatsRegs c u m.txd)
    (reason : AbortReason) : StatsRegs c u (abortMach m reason).txd := by
  unfold abortMach tmsystemAbortTransaction tmsystemRegisterGenericUndoAction
  split
  · exact ⟨h.commitOrder, h.undoOrder, h.commits, h.noUndo, h.undos, h.noCommit, h.commitFlag,
      h.undoFlag, h.itmCommit, rfl, h.committing, fun _ => rfl⟩
  · exact ⟨h.commitOrder, h.undoOrder, h.commits, h.noUndo, h.undos, h.noCommit, h.commitFlag,
      h.undoFlag, h.itmCommit, h.itmUndo, h.committing, h.undoing⟩

/-! ## every run -/

/-- the counters of an attempt are the ones in its `txstat` -/
structure CountersIn (x : Thread α n W) : Prop where
  location : x.mach.world.txstat.srclocStr = x.location
  counters : ∀ i, (x.mach.world.txstat.totalStats i).total = x.counters i

structure StatInv (x : Thread α n W) : Prop where
  idle : x.phase ≠ .running → x.mach.txd.itmCommit = false ∧ x.mach.txd.itmUndo = false
  begun : x.phase = .begun → StatsRegs false false x.mach.txd
  running : x.phase = .running → StatsRegs true true x.mach.txd
  counters : x.phase ≠ .outside → CountersIn x
  committed : ThreadExact x.mach.world.threadstat x.commits

theorem statInv_init (txstat : TxStat) (mem : Nat → Int) (rest : W) :
    StatInv (threadInit txstat mem rest : Thread α n W) :=
  ⟨fun _ => ⟨rfl, rfl⟩, fun h => (by cases h), fun h => (by cases h), fun h => absurd rfl h,
    threadExact_create⟩

/-- **A rollback** resets the counters of the attempt and collects nothing. -/
theorem StatInv.rollback {x x' : Thread α n W} {m : TMach α n W} {fuel : Nat}
    (hr : StatsRegs true true m.txd) (hloc : m.world.txstat.srclocStr = x.location)
    (hex : ThreadExact m.world.threadstat x.commits) (hs : x.rollback env m fuel = some x') :
    StatInv x' := by
  obtain ⟨m', hm', rfl⟩ := Option.map_eq_some_iff.mp hs
  rcases rollbackMach_some env hr.undoOrder hm' with ⟨hitm, _⟩ | ⟨_, o, _, hord, rfl⟩
  · rw [hr.undoing rfl] at hitm
    cases hitm
  have hcount : ∀ p : ActionEntry (TAct α) → Bool,
      o.executed.countP p = m.txd.undoActionList.entries.countP p := by
    intro p
    rw [hord.once.countP_eq, undoScan, List.countP_reverse]
  obtain ⟨h1, h2, h3⟩ := callAll_undo_stats env m
    ((hcount _).trans hr.noCommit)
  have hzero := h3 (.inl (by rw [hcount, hr.undos]; decide))
  have hcl := cleared_undoTail (callAll env.exec o.executed m).2
    (firstError (callAll env.exec o.executed m).1)
  have hworld := undoTail_world (callAll env.exec o.executed m).2
    (firstError (callAll env.exec o.executed m).1)
  refine ⟨fun _ => ⟨rfl, rfl⟩, fun _ => ?_, fun hp => ?_, fun _ => ⟨?_, fun i => ?_⟩, ?_⟩
  · exact Cleared.statsRegs ⟨hcl.commits, hcl.undos, hcl.flags⟩ rfl rfl
  · exact absurd hp (phaseAfter_ne_running _)
  · exact (congrArg (·.txstat.srclocStr) hworld).trans (h2.trans hloc)
  · refine (congrArg (fun w => (w.txstat.totalStats i).total) hworld).trans ?_
    simp only [hzero]
    rfl
  · exact (congrArg Local.threadstat hworld).trans h1 ▸ hex

theorem StatInv.postBegin {x x' : Thread α n W} {fuel : Nat} {b : Bool}
    (hr : StatsRegs b b x.mach.txd) (hc : CountersIn x)
    (hex : ThreadExact x.mach.world.threadstat x.commits)
    (hs : x.postBegin env true fuel = some x') : StatInv x' := by
  have hr' := hr.postBegin
  unfold Thread.postBegin at hs
  simp only at hs
  split at hs
  · exact StatInv.rollback env (hr'.abort .userabort) hc.location hex hs
  · cases hs
    exact ⟨fun h => absurd rfl h, fun h => (by cases h), fun _ => hr',
      fun _ => ⟨hc.location, hc.counters⟩, hex⟩

theorem StatInv.setTxd {x : Thread α n W} (h : StatInv x) (hp : x.phase = .running)
    {txd : TDesc α n} (hr : StatsRegs true true txd) : StatInv (x.setTxd txd) := by
  refine ⟨fun hn => absurd hp hn, fun hb => ?_, fun _ => hr, fun ho => ?_, h.committed⟩
  · exact absurd (hp.symm.trans hb) (by decide)
  · exact ⟨(h.counters ho).location, (h.counters ho).counters⟩

/-- **A commit** collects the counters of the attempt. -/
theorem StatInv.commit {x x' : Thread α n W} {fuel : Nat} (h : StatInv x)
    (hs : threadStep env true x (.commit fuel) = some x') : StatInv x' := by
  obtain ⟨hp, hs⟩ := Option.ite_none_right_eq_some.mp hs
  obtain ⟨m, hm, rfl⟩ := Option.map_eq_some_iff.mp hs
  have hr := h.running hp
  have hc := h.counters (by rw [hp]; decide)
  unfold commitMach at hm
  rw [if_pos (hr.committing rfl)] at hm
  obtain ⟨o, ho, rfl⟩ := Option.map_eq_some_iff.mp hm
  obtain ⟨hord, _, hmach⟩ := txGenericCommitAction_of_some (registersNothing_exec env)
    hr.commitOrder ho
  have hcount : ∀ p : ActionEntry (TAct α) → Bool,
      o.executed.countP p = x.mach.txd.commitActionList.entries.countP p := by
    intro p
    rw [hord.once.countP_eq, commitScan]
  obtain ⟨_, _, h3⟩ := callAll_commit_stats env x.mach
    ((hcount _).trans hr.noUndo)
  have hstat := h3 ((hcount _).trans hr.commits)
  refine ⟨fun _ => ⟨rfl, rfl⟩, fun hb => (by cases hb), fun hb => (by cases hb),
    fun ho => absurd rfl ho, ?_⟩
  have hcounters : x.counters = fun i => (x.mach.world.txstat.totalStats i).total :=
    funext fun i => (hc.counters i).symm
  show ThreadExact o.mach.world.threadstat (x.commits ++ [(x.location, x.counters)])
  rw [hmach, commitTail_world, hstat, ← hc.location, hcounters]
  exact h.committed.commit _

theorem Thread.increment_true (x : Thread α n W) (entry : StatEntry) (val : UInt32) :
    x.increment true entry val =
      { x with
        mach := { x.mach with world := { x.mach.world with
          txstat := statsTxstatIncrement x.mach.world.txstat entry val } }
        counters := Function.update x.counters entry (x.counters entry + val) } := rfl

theorem CountersIn.increment {x : Thread α n W} (h : CountersIn x) (entry : StatEntry)
    (val : UInt32) : CountersIn (x.increment true entry val) := by
  rw [Thread.increment_true]
  refine ⟨h.location, fun i => ?_⟩
  by_cases hi : i = entry
  · subst hi
    simp only [statsTxstatIncrement, Function.update_self]
    rw [h.counters]
  · simp only [statsTxstatIncrement, Function.update_of_ne hi]
    exact h.counters i

/-- **One step of a thread.** -/
theorem StatInv.step {x x' : Thread α n W} {ev : ThreadEvent α n W} (h : StatInv x)
    (hs : threadStep env true x ev = some x') : StatInv x' := by
  cases ev with
  | preBegin srclocStr srcloc =>
    obtain ⟨hp, hs⟩ := Option.ite_none_right_eq_some.mp hs
    cases hs
    obtain ⟨h1, h2⟩ := h.idle (by rw [hp]; decide)
    refine ⟨fun _ => ⟨h1, h2⟩, fun _ => ?_, fun hr => (by cases hr), fun _ => ⟨rfl, fun i => rfl⟩,
      h.committed⟩
    exact Cleared.statsRegs ⟨rfl, rfl, rfl, rfl, rfl, rfl, rfl, rfl⟩ h1 h2
  | postBegin fuel =>
    obtain ⟨hp, hs⟩ := Option.ite_none_right_eq_some.mp hs
    exact StatInv.postBegin env (h.begun hp) (h.counters (by rw [hp]; decide)) h.committed hs
  | innerBegin fuel =>
    obtain ⟨hp, hs⟩ := Option.ite_none_right_eq_some.mp hs
    exact StatInv.postBegin env (h.running hp) (h.counters (by rw [hp]; decide)) h.committed hs
  | fmRegister flags errorResult =>
    obtain ⟨hp, hs⟩ := Option.ite_none_right_eq_some.mp hs
    cases hs
    have hr := h.running hp
    have hset : StatInv (x.setTxd
        { x.mach.txd with fmFlags := flags, fmErrorResult := errorResult }) :=
      h.setTxd hp ⟨hr.commitOrder, hr.undoOrder, hr.commits, hr.noUndo, hr.undos, hr.noCommit,
        hr.commitFlag, hr.undoFlag, hr.itmCommit, hr.itmUndo, hr.committing, hr.undoing⟩
    exact ⟨hset.idle, hset.begun, hset.running,
      fun ho => ⟨(hset.counters ho).location, (hset.counters ho).counters⟩, hset.committed⟩
  | registerCommit a errorResult order =>
    obtain ⟨⟨hp, ho⟩, hs⟩ := Option.ite_none_right_eq_some.mp hs
    cases hs
    exact h.setTxd hp ((h.running hp).otherCommit ho rfl rfl)
  | registerUndo a errorResult order =>
    obtain ⟨⟨hp, ho⟩, hs⟩ := Option.ite_none_right_eq_some.mp hs
    cases hs
    exact h.setTxd hp ((h.running hp).otherUndo ho rfl rfl)
  | enlist e =>
    obtain ⟨hp, hs⟩ := Option.ite_none_right_eq_some.mp hs
    cases hs
    exact h.setTxd hp (SentinelsOnly.statsRegs ⟨_, _, _, _, rfl⟩ (h.running hp).sentinels)
  | increment entry val =>
    simp only [threadStep] at hs
    split at hs
    · cases hs
    · cases hs
      exact ⟨h.idle, h.begun, h.running, fun ho => (h.counters ho).increment entry val,
        h.committed⟩
  | user mem rest =>
    obtain ⟨hp, hs⟩ := Option.ite_none_right_eq_some.mp hs
    cases hs
    exact ⟨h.idle, h.begun, h.running,
      fun ho => ⟨(h.counters ho).location, (h.counters ho).counters⟩, h.committed⟩
  | abort reason fuel =>
    obtain ⟨hp, hs⟩ := Option.ite_none_right_eq_some.mp hs
    have hc := h.counters (by rw [hp]; decide)
    exact StatInv.rollback env ((h.running hp).abort reason) hc.location h.committed hs
  | conflict fuel =>
    obtain ⟨hp, hs⟩ := Option.ite_none_right_eq_some.mp hs
    have hc := h.counters (by rw [hp]; decide)
    exact StatInv.rollback env (h.running hp) hc.location h.committed hs
  | commit fuel => exact h.commit env hs

theorem statInv_reach {txstat : TxStat} {mem : Nat → Int} {rest : W} {x : Thread α n W}
    (h : Reach (threadStep env true) any (· = threadInit txstat mem rest) x) : StatInv x :=
  h.inv (fun _ hs => hs ▸ statInv_init txstat mem rest) fun _ _ _ hi _ hs => hi.step env hs

theorem StatInv.commit_returns {x : Thread α n W} (h : StatInv x) (hp : x.phase = .running) :
    ∃ fuel₀ x', (∀ fuel ≥ fuel₀, threadStep env true x (.commit fuel) = some x') ∧
      x'.phase = .outside ∧ x'.commits = x.commits ++ [(x.location, x.counters)] := by
  have hr := h.running hp
  obtain ⟨fuel₀, o, hrun, _⟩ := txGenericCommitAction_spec (registersNothing_exec env) x.mach
    hr.commitOrder
  refine ⟨fuel₀,
    { x with
      mach := o.mach.forget
      phase := .outside
      registered := none
      counters := fun _ => 0
      commits := x.commits ++ [(x.location, x.counters)] },
    fun fuel hf => ?_, rfl, rfl⟩
  unfold threadStep commitMach
  simp only [hp, if_true, hr.committing rfl, hrun fuel hf, Option.map_some]

theorem StatInv.rollback_returns {x : Thread α n W} (h : StatInv x) (hp : x.phase = .running) :
    (∃ fuel₀ x', ∀ fuel ≥ fuel₀, threadStep env true x (.conflict fuel) = some x') ∧
      ∀ reason, ∃ fuel₀ x', ∀ fuel ≥ fuel₀, threadStep env true x (.abort reason fuel) = some x' := by
  have hback : ∀ m : TMach α n W, (∀ e ∈ m.txd.undoActionList.entries, 0 ≤ e.order) →
      ∃ fuel₀ x', ∀ fuel ≥ fuel₀, x.rollback env m fuel = some x' := by
    intro m h0
    obtain ⟨fuel₀, m', hrun⟩ := rollbackMach_returns env h0
    refine ⟨fuel₀,
      { x with
        mach := m'
        phase := phaseAfter m.txd.abortReason
        registered := none
        counters := fun _ => 0 },
      fun fuel hf => ?_⟩
    unfold Thread.rollback
    rw [hrun fuel hf, Option.map_some]
  constructor
  · obtain ⟨fuel₀, x', hrun⟩ := hback x.mach (h.running hp).undoOrder
    exact ⟨fuel₀, x', fun fuel hf => (if_pos hp).trans (hrun fuel hf)⟩
  · intro reason
    obtain ⟨fuel₀, x', hrun⟩ := hback _ ((h.running hp).abort reason).undoOrder
    exact ⟨fuel₀, x', fun fuel hf => (if_pos hp).trans (hrun fuel hf)⟩

/-- the container of a location, if a transaction has been committed there -/
theorem ThreadExact.container_iff {s : ThreadStat}
    {commits : List (UInt32 × (StatEntry → UInt32))} (h : ThreadExact s commits) (k : UInt32) :
    (countersAt k commits = [] → s.txStats k = none) ∧
      (countersAt k commits ≠ [] → ∃ c, s.txStats k = some c ∧ c.srclocStr = k ∧
        Aggregates c.count c.totalStats (countersAt k commits)) := by
  cases hk : s.txStats k with
  | none => exact ⟨fun _ => rfl, fun hne => absurd (h.absent k hk) hne⟩
  | some c =>
    obtain ⟨hne, hc⟩ := h.container k c hk
    exact ⟨fun hnil => absurd hnil hne,
      fun _ => ⟨c, rfl, hc.srclocStr, aggregates_collected hc.count hc.stats⟩⟩

/-- **Per-thread statistics.**  With statistics enabled, in every state of every run of a thread:
a location has a container exactly when a transaction has been committed there; its count and its
totals, modulo 2³², and its minima and maxima are those of the counters of the committing attempts
of these transactions; the thread's totals are the same over all its committed transactions; and
every rollback and every commit returns. -/
theorem stats_exact (txstat : TxStat) (mem : Nat → Int) (rest : W) (x : Thread α n W)
    (h : Reach (threadStep env true) any (· = threadInit txstat mem rest) x) :
    (∀ k, (countersAt k x.commits = [] → x.mach.world.threadstat.txStats k = none) ∧
      (countersAt k x.commits ≠ [] → ∃ c, x.mach.world.threadstat.txStats k = some c ∧
        c.srclocStr = k ∧ Aggregates c.count c.totalStats (countersAt k x.commits))) ∧
    Aggregates x.mach.world.threadstat.count x.mach.world.threadstat.totalStats
      (x.commits.map Prod.snd) ∧
    (x.phase = .running →
      (∃ fuel₀ x', (∀ fuel ≥ fuel₀, threadStep env true x (.commit fuel) = some x') ∧
        x'.phase = .outside ∧ x'.commits = x.commits ++ [(x.location, x.counters)]) ∧
      (∃ fuel₀ x', ∀ fuel ≥ fuel₀, threadStep env true x (.conflict fuel) = some x') ∧
      ∀ reason, ∃ fuel₀ x', ∀ fuel ≥ fuel₀,
        threadStep env true x (.abort reason fuel) = some x') := by
  have hinv := statInv_reach env h
  refine ⟨hinv.committed.container_iff, ?_, fun hp => ⟨hinv.commit_returns env hp,
    hinv.rollback_returns env hp⟩⟩
  refine aggregates_collected ?_ fun i => ?_
  · rw [List.length_map]
    exact hinv.committed.count
  · rw [List.map_map]
    exact hinv.committed.stats i

end

/-- an attempt that counts 4 calls of `x_read` and is rolled back, and one that counts 2 -/
def countingRun : List (ThreadEvent Nat 1 Unit) :=
  [.preBegin 7 ⟨0, 0, 1⟩, .postBegin 0, .increment .xRead 4, .abort .userretry 40,
    .postBegin 0, .increment .xRead 2, .commit 40]

theorem stats_exact_countingRun :
    ∃ x c, run (threadStep failingEnv true) (threadInit emptyTxStat (fun _ => 0) ())
        countingRun = some x ∧
      x.mach.world.threadstat.txStats 7 = some c ∧
      Aggregates c.count c.totalStats (countersAt 7 x.commits) ∧
      (countersAt 7 x.commits).map (· .xRead) = [2] := by
  have hrun : ((run (threadStep failingEnv true) (threadInit emptyTxStat (fun _ => 0) ())
      countingRun).map fun x => (countersAt 7 x.commits).map (· .xRead)) = some [2] := by
    decide +kernel
  obtain ⟨x, hx, hc⟩ := Option.map_eq_some_iff.mp hrun
  have hne : countersAt 7 x.commits ≠ [] := by
    intro h0
    rw [h0] at hc
    cases hc
  have hexact := stats_exact failingEnv emptyTxStat (fun _ => 0) () x (reach_of_run _ hx)
  obtain ⟨c, h1, _, h2⟩ := (hexact.1 7).2 hne
  exact ⟨x, c, hx, h1, h2, hc⟩

/-! ## the width of the counters -/

theorem empty_transaction (env : Env α n W) {init : Thread α n W → Prop} {x : Thread α n W}
    (h : Reach (threadStep env true) any init x) (hx : StatInv x) (hp : x.phase = .outside)
    (k : UInt32) (loc : SrcLoc) :
    ∃ y, Reach (threadStep env true) any init y ∧ StatInv y ∧ y.phase = .outside ∧
      y.commits = x.commits ++ [(k, fun _ => 0)] := by
  have h1 : threadStep env true x (.preBegin k loc) = _ := if_pos hp
  have hx1 := hx.step env h1
  have hab : (txPostBegin true (txPreBegin true x.mach k loc)).txd.fmAbort = false :=
    (managed_postBegin true _).abort
  have h2 : threadStep env true
      { x with mach := txPreBegin true x.mach k loc, phase := .begun, registered := none,
               location := k, counters := fun _ => 0 } (.postBegin 0)
      = some { x with mach := txPostBegin true (txPreBegin true x.mach k loc), phase := .running,
                      registered := none, location := k, counters := fun _ => 0 } := by
    simp only [threadStep, Thread.postBegin, if_true, hab, Bool.false_eq_true, if_false]
  have hx2 := hx1.step env h2
  obtain ⟨fuel₀, y, hrun, hy, hcommits⟩ := hx2.commit_returns env rfl
  have h3 := hrun fuel₀ (Nat.le_refl _)
  exact ⟨y, ((h.next trivial h1).next trivial h2).next trivial h3, hx2.step env h3, hy, hcommits⟩

theorem empty_transactions (env : Env α n W) {init : Thread α n W → Prop} {x : Thread α n W}
    (h : Reach (threadStep env true) any init x) (hx : StatInv x) (hp : x.phase = .outside)
    (k : UInt32) (loc : SrcLoc) (count : Nat) :
    ∃ y, Reach (threadStep env true) any init y ∧ StatInv y ∧ y.phase = .outside ∧
      y.commits = x.commits ++ List.replicate count (k, fun _ => 0) := by
  induction count with
  | zero => exact ⟨x, h, hx, hp, (List.append_nil _).symm⟩
  | succ count ih =>
    obtain ⟨y, hy, hinv, hout, hc⟩ := ih
    obtain ⟨z, hz, hinv', hout', hc'⟩ := empty_transaction env hy hinv hout k loc
    refine ⟨z, hz, hinv', hout', ?_⟩
    rw [hc', hc, List.append_assoc, List.replicate_succ']

theorem countersAt_replicate (k : UInt32) (c : StatEntry → UInt32) (count : Nat) :
    countersAt k (List.replicate count (k, c)) = List.replicate count c := by
  unfold countersAt
  rw [List.filter_eq_self.mpr, List.map_replicate]
  intro x hx
  rw [List.eq_of_mem_replicate hx]
  exact decide_eq_true rfl

/-- 2³² transactions at one location leave the count at 0 -/
theorem stats_count_wraps :
    ∃ x c, Reach (threadStep failingEnv true) any (· = threadInit emptyTxStat (fun _ => 0) ()) x ∧
      x.mach.world.threadstat.txStats 7 = some c ∧ (countersAt 7 x.commits).length = 2 ^ 32 ∧
      c.count = 0 := by
  have h0 : Reach (threadStep failingEnv true) any
      (· = threadInit emptyTxStat (fun _ => 0) ()) _ := .start rfl
  obtain ⟨x, hx, hinv, _, hc⟩ := empty_transactions failingEnv h0
    (statInv_init emptyTxStat (fun _ => 0) ()) rfl 7 ⟨0, 0, 1⟩ (2 ^ 32)
  have hat : countersAt 7 x.commits = List.replicate (2 ^ 32) fun _ => 0 := by
    rw [hc]
    exact countersAt_replicate 7 _ _
  have hlen : (countersAt 7 x.commits).length = 2 ^ 32 := by
    rw [hat, List.length_replicate]
  have hne : countersAt 7 x.commits ≠ [] := by
    intro h0
    rw [h0] at hlen
    cases hlen
  obtain ⟨c, h1, _, h2⟩ := (hinv.committed.container_iff 7).2 hne
  refine ⟨x, c, hx, h1, hlen, ?_⟩
  have hcount := h2.count
  rw [hlen] at hcount
  exact UInt32.toNat_inj.mp hcount

end XCalls
