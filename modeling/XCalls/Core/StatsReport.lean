import XCalls.Core.StatsExact
import XCalls.Misc.HashIter

/-!
# The statistics report

`stats_summarize_all`, and the part of `txc_stats_print` that prepares it: the containers of all
threads are merged, per location and into a grand total.

* `statsSummarizeAll`, `statsPrintSummary`   the merge, over the list of threads and their tables;
* `ThreadReport`    a thread's statistics with its table and its containers;
* `Extremes`, `ReportExact`   what the report should say;
* `SumsFit`, `ZerosCommitted`   the condition under which it does;
* `report_exact_iff`   the report is exact exactly then: the grand total starts with the minimum 0.
-/

set_option linter.unusedSectionVars false

namespace XCalls
open Links EventSys

/-! ## the functions -/

def Stat.merge (all s : Stat) : Stat :=
  ⟨if all.max > s.max then all.max else s.max, if all.min < s.min then all.min else s.min,
    all.total + s.total⟩

/-- the body of the inner loop of `stats_summarize_all` -/
def summarizeTxstat (summary : ThreadStat) (_key : UInt32) (txstat : TxStat) : ThreadStat :=
  let (container, txStats) := statsGetTxstatContainer summary.txStats txstat
  { count := summary.count + txstat.count
    totalStats := fun i => (summary.totalStats i).merge (txstat.totalStats i)
    txStats := Function.update txStats txstat.srclocStr (some
      { container with
        count := container.count + txstat.count
        totalStats := fun i => (container.totalStats i).merge (txstat.totalStats i) }) }

/-- `stats_summarize_all`, from a thread of the list on; `tables` holds the table of each thread -/
def statsSummarizeAll (next : Nat → Option Nat) (tables : Nat → HashTable TxStat) :
    Nat → Option Nat → ThreadStat → Option ThreadStat
  | _, none, summary => some summary
  | 0, some _, _ => none
  | fuel + 1, some t, summary =>
    (hashTableForEach (tables t) summarizeTxstat fuel (hashTableIterInit (tables t)) summary).bind
      fun summary => statsSummarizeAll next tables fuel (next t) summary

/-- the summary that `txc_stats_print` starts with -/
def statsPrintInit : ThreadStat := ⟨0, fun _ => ⟨0, 0, 0⟩, fun _ => none⟩

/-- the summary that `txc_stats_print` prints; `head` is `alloc_threadstat_list_head` -/
def statsPrintSummary (next : Nat → Option Nat) (tables : Nat → HashTable TxStat) (fuel : Nat)
    (head : Option Nat) : Option ThreadStat :=
  statsSummarizeAll next tables fuel head statsPrintInit

/-! ## merging -/

def mergeAll (z : Stat) (l : List Stat) : Stat := l.foldl Stat.merge z

theorem mergeAll_snoc (z : Stat) (l : List Stat) (s : Stat) :
    mergeAll z (l ++ [s]) = (mergeAll z l).merge s := by
  unfold mergeAll
  rw [List.foldl_append]
  rfl

theorem mergeAll_total (z : Stat) (l : List Stat) :
    (mergeAll z l).total.toNat = (z.total.toNat + (l.map fun s => s.total.toNat).sum) % 2 ^ 32 := by
  induction l using List.reverseRecOn with
  | nil => exact (Nat.mod_eq_of_lt (UInt32.toNat_lt _)).symm
  | append_singleton l s ih =>
    rw [mergeAll_snoc]
    show ((mergeAll z l).total + s.total).toNat = _
    rw [UInt32.toNat_add, ih, List.map_append, List.sum_append, Nat.mod_add_mod, Nat.add_assoc]
    simp

/-- `MIN` keeps a lower bound of everything it has seen -/
theorem mergeAll_min_le (z : Stat) (l : List Stat) :
    (mergeAll z l).min ≤ z.min ∧ ∀ s ∈ l, (mergeAll z l).min ≤ s.min := by
  induction l using List.reverseRecOn with
  | nil => exact ⟨UInt32.le_refl _, fun s hs => by cases hs⟩
  | append_singleton l d ih =>
    have hle : (mergeAll z (l ++ [d])).min ≤ (mergeAll z l).min ∧
        (mergeAll z (l ++ [d])).min ≤ d.min := by
      rw [mergeAll_snoc]
      unfold Stat.merge
      by_cases hlt : (mergeAll z l).min < d.min
      · rw [if_pos hlt]
        exact ⟨UInt32.le_refl _, UInt32.le_of_lt hlt⟩
      · rw [if_neg hlt]
        exact ⟨UInt32.not_lt.mp hlt, UInt32.le_refl _⟩
    refine ⟨UInt32.le_trans hle.1 ih.1, fun s hs => ?_⟩
    rcases List.mem_append.mp hs with hs | hs
    · exact UInt32.le_trans hle.1 (ih.2 s hs)
    · rw [List.mem_singleton.mp hs]
      exact hle.2

theorem le_mergeAll_max (z : Stat) (l : List Stat) :
    z.max ≤ (mergeAll z l).max ∧ ∀ s ∈ l, s.max ≤ (mergeAll z l).max := by
  induction l using List.reverseRecOn with
  | nil => exact ⟨UInt32.le_refl _, fun s hs => by cases hs⟩
  | append_singleton l d ih =>
    have hle : (mergeAll z l).max ≤ (mergeAll z (l ++ [d])).max ∧
        d.max ≤ (mergeAll z (l ++ [d])).max := by
      rw [mergeAll_snoc]
      unfold Stat.merge
      by_cases hlt : (mergeAll z l).max > d.max
      · rw [if_pos hlt]
        exact ⟨UInt32.le_refl _, UInt32.le_of_lt hlt⟩
      · rw [if_neg hlt]
        exact ⟨UInt32.not_lt.mp hlt, UInt32.le_refl _⟩
    refine ⟨UInt32.le_trans ih.1 hle.1, fun s hs => ?_⟩
    rcases List.mem_append.mp hs with hs | hs
    · exact UInt32.le_trans (ih.2 s hs) hle.1
    · rw [List.mem_singleton.mp hs]
      exact hle.2

/-- the extremes of a merge are among the values, or those it started with -/
theorem mergeAll_mem (z : Stat) (l : List Stat) :
    ((mergeAll z l).min = z.min ∨ ∃ s ∈ l, (mergeAll z l).min = s.min) ∧
      ((mergeAll z l).max = z.max ∨ ∃ s ∈ l, (mergeAll z l).max = s.max) := by
  induction l using List.reverseRecOn with
  | nil => exact ⟨.inl rfl, .inl rfl⟩
  | append_singleton l d ih =>
    rw [mergeAll_snoc]
    unfold Stat.merge
    constructor
    · by_cases hlt : (mergeAll z l).min < d.min
      · rw [if_pos hlt]
        refine ih.1.imp id fun ⟨s, hs, h⟩ => ⟨s, List.mem_append_left _ hs, h⟩
      · rw [if_neg hlt]
        exact .inr ⟨d, by simp, rfl⟩
    · by_cases hlt : (mergeAll z l).max > d.max
      · rw [if_pos hlt]
        refine ih.2.imp id fun ⟨s, hs, h⟩ => ⟨s, List.mem_append_left _ hs, h⟩
      · rw [if_neg hlt]
        exact .inr ⟨d, by simp, rfl⟩

/-! ## the summary of a list of containers -/

def containersAt (k : UInt32) (es : List TxStat) : List TxStat := es.filter fun c => c.srclocStr = k

theorem containersAt_snoc (k : UInt32) (es : List TxStat) (t : TxStat) :
    containersAt k (es ++ [t])
      = if t.srclocStr = k then containersAt k es ++ [t] else containersAt k es := by
  unfold containersAt
  rw [List.filter_append]
  by_cases h : t.srclocStr = k <;> simp [h]

def countSum (es : List TxStat) : Nat := (es.map fun c => c.count.toNat).sum

def totalSum (i : StatEntry) (es : List TxStat) : Nat :=
  (es.map fun c => (c.totalStats i).total.toNat).sum

theorem countSum_snoc (es : List TxStat) (t : TxStat) :
    countSum (es ++ [t]) = countSum es + t.count.toNat := by
  simp [countSum]

/-- `c` is the merge of the containers `es` of location `k` -/
structure MergedAt (k : UInt32) (c : TxStat) (es : List TxStat) : Prop where
  srclocStr : c.srclocStr = k
  count : c.count.toNat = countSum es % 2 ^ 32
  stats : ∀ i, c.totalStats i = mergeAll Stat.zero (es.map fun c => c.totalStats i)

structure Summarized (es : List TxStat) (s : ThreadStat) : Prop where
  count : s.count.toNat = countSum es % 2 ^ 32
  stats : ∀ i, s.totalStats i = mergeAll ⟨0, 0, 0⟩ (es.map fun c => c.totalStats i)
  absent : ∀ k, s.txStats k = none → containersAt k es = []
  container : ∀ k c, s.txStats k = some c →
    containersAt k es ≠ [] ∧ MergedAt k c (containersAt k es)

theorem summarized_init : Summarized [] statsPrintInit :=
  ⟨rfl, fun _ => rfl, fun _ _ => rfl, fun _ _ h => by cases h⟩

theorem toNat_add_mod {c d : UInt32} {k : Nat} (h : c.toNat = k % 2 ^ 32) :
    (c + d).toNat = (k + d.toNat) % 2 ^ 32 := by
  rw [UInt32.toNat_add, h]
  exact Nat.mod_add_mod k (2 ^ 32) _

theorem summarizeTxstat_txStats (s : ThreadStat) (key : UInt32) (t : TxStat) :
    (summarizeTxstat s key t).txStats =
      Function.update (statsGetTxstatContainer s.txStats t).2 t.srclocStr (some
        { (statsGetTxstatContainer s.txStats t).1 with
          count := (statsGetTxstatContainer s.txStats t).1.count + t.count
          totalStats := fun i => ((statsGetTxstatContainer s.txStats t).1.totalStats i).merge
            (t.totalStats i) }) := rfl

/-- **One container** is merged into the summary. -/
theorem Summarized.snoc {es : List TxStat} {s : ThreadStat} (h : Summarized es s) (key : UInt32)
    (t : TxStat) : Summarized (es ++ [t]) (summarizeTxstat s key t) := by
  have hf : ∀ c, MergedAt t.srclocStr c (containersAt t.srclocStr es) →
      MergedAt t.srclocStr
        { c with
          count := c.count + t.count
          totalStats := fun i => (c.totalStats i).merge (t.totalStats i) }
        (containersAt t.srclocStr es ++ [t]) := by
    intro c hc
    refine ⟨hc.srclocStr, ?_, fun i => ?_⟩
    · rw [countSum_snoc]
      exact toNat_add_mod hc.count
    · rw [List.map_append, List.map_singleton, mergeAll_snoc, ← hc.stats]
  obtain ⟨habsent, hcontainer⟩ := containers_snoc t _ (fun k => containersAt_snoc k es t)
    h.absent h.container ⟨rfl, rfl, fun i => rfl⟩ hf (summarizeTxstat_txStats s key t)
  refine ⟨?_, fun i => ?_, habsent, hcontainer⟩
  · rw [countSum_snoc]
    exact toNat_add_mod h.count
  · rw [List.map_append, List.map_singleton, mergeAll_snoc, ← h.stats]
    rfl

theorem Summarized.fold {m : Buckets TxStat} (l : List Nat) {es : List TxStat} {s : ThreadStat}
    (h : Summarized es s) :
    Summarized (es ++ l.map m.value)
      (l.foldl (fun s b => summarizeTxstat s (m.key b) (m.value b)) s) := by
  induction l generalizing es s with
  | nil =>
    rw [List.map_nil, List.append_nil]
    exact h
  | cons b l ih =>
    have hstep := ih (h.snoc (m.key b) (m.value b))
    rwa [List.append_assoc] at hstep

/-! ## the threads -/

/-- a thread's statistics, its table, the containers in it, and what the thread has committed -/
structure ThreadReport where
  stat : ThreadStat
  table : HashTable TxStat
  containers : List TxStat
  commits : List (UInt32 × (StatEntry → UInt32))

structure ThreadReport.WellFormed (t : ThreadReport) : Prop where
  table : ∃ buckets L F, HashRep ⟨t.table, buckets, t.stat.txStats⟩ L F
  keys : (t.containers.map TxStat.srclocStr).Nodup
  containers : ∀ k c, t.stat.txStats k = some c ↔ c ∈ t.containers ∧ c.srclocStr = k
  committed : ThreadExact t.stat t.commits

/-- the loop over a thread's table goes through its containers -/
theorem ThreadReport.WellFormed.forEach {t : ThreadReport} (h : t.WellFormed) :
    ∃ es, es.Perm t.containers ∧ ∃ fuel₀, ∀ fuel ≥ fuel₀, ∀ done s, Summarized done s →
      ∃ s', hashTableForEach t.table summarizeTxstat fuel (hashTableIterInit t.table) s = some s' ∧
        Summarized (done ++ es) s' := by
  obtain ⟨buckets, L, F, hrep⟩ := h.table
  refine ⟨(liveBuckets t.table L).map t.table.mem.value, ?_, (liveBuckets t.table L).length + 1,
    fun fuel hf done s hs => ?_⟩
  · have hmem : ∀ b ∈ liveBuckets t.table L,
        (t.table.mem.value b) ∈ t.containers ∧
          (t.table.mem.value b).srclocStr = t.table.mem.key b := fun b hb =>
      (h.containers _ _).mp ((hrep.map_iff _ _).mpr ⟨b, hb, rfl, rfl⟩)
    have hkeys : ((liveBuckets t.table L).map t.table.mem.value).map TxStat.srclocStr
        = (liveBuckets t.table L).map t.table.mem.key := by
      rw [List.map_map]
      exact List.map_congr_left fun b hb => (hmem b hb).2
    have hnd : ((liveBuckets t.table L).map t.table.mem.value).Nodup :=
      List.Nodup.of_map TxStat.srclocStr (hkeys ▸ hrep.keys_nodup)
    refine (List.perm_ext_iff_of_nodup hnd (List.Nodup.of_map _ h.keys)).mpr fun c => ?_
    constructor
    · intro hc
      obtain ⟨b, hb, rfl⟩ := List.mem_map.mp hc
      exact (hmem b hb).1
    · intro hc
      obtain ⟨b, hb, _, hv⟩ := (hrep.map_iff _ _).mp ((h.containers c.srclocStr c).mpr ⟨hc, rfl⟩)
      exact List.mem_map.mpr ⟨b, hb, hv⟩
  · exact ⟨_, hrep.forEach summarizeTxstat s hf, hs.fold _⟩

/-- the loop over the list of threads -/
theorem statsSummarizeAll_spec (threads : Nat → ThreadReport) {next : Nat → Option Nat}
    (ids : List Nat) {head : Option Nat} (hl : Seg next head ids none)
    (hwf : ∀ t ∈ ids, (threads t).WellFormed) :
    ∃ es, es.Perm (ids.flatMap fun t => (threads t).containers) ∧
      ∃ fuel₀, ∀ fuel ≥ fuel₀, ∀ done s, Summarized done s → ∃ s',
        statsSummarizeAll next (fun t => (threads t).table) fuel head s = some s' ∧
          Summarized (done ++ es) s' := by
  induction ids generalizing head with
  | nil =>
    have h0 : head = none := hl
    subst h0
    refine ⟨[], List.Perm.refl _, 0, fun fuel _ done s hs => ⟨s, ?_, ?_⟩⟩
    · cases fuel <;> rfl
    · rw [List.append_nil]
      exact hs
  | cons t ids ih =>
    obtain ⟨rfl, hl⟩ := hl
    obtain ⟨es₁, hp₁, f₁, h₁⟩ := (hwf t List.mem_cons_self).forEach
    obtain ⟨es₂, hp₂, f₂, h₂⟩ := ih hl fun x hx => hwf x (List.mem_cons_of_mem _ hx)
    refine ⟨es₁ ++ es₂, hp₁.append hp₂, max f₁ f₂ + 1, fun fuel hf done s hs => ?_⟩
    obtain ⟨f, rfl⟩ : ∃ f, fuel = f + 1 := ⟨fuel - 1, by omega⟩
    obtain ⟨s₁, hrun₁, hs₁⟩ := h₁ f (by omega) done s hs
    obtain ⟨s₂, hrun₂, hs₂⟩ := h₂ f (by omega) _ s₁ hs₁
    refine ⟨s₂, ?_, ?_⟩
    · rw [statsSummarizeAll, hrun₁]
      exact hrun₂
    · rwa [List.append_assoc] at hs₂

/-! ## what the report should say -/

/-- the minimum and the maximum of a statistic are those of the two lists -/
structure Extremes (s : Stat) (mins maxs : List UInt32) : Prop where
  min_mem : s.min ∈ mins
  min_le : ∀ x ∈ mins, s.min ≤ x
  max_mem : s.max ∈ maxs
  le_max : ∀ x ∈ maxs, x ≤ s.max

/-- `s` sums up the containers of all threads, which have committed `commits` -/
structure ReportExact (containers : List TxStat) (commits : List (UInt32 × (StatEntry → UInt32)))
    (s : ThreadStat) : Prop where
  absent : ∀ k, containersAt k containers = [] → s.txStats k = none
  location : ∀ k, containersAt k containers ≠ [] → ∃ c, s.txStats k = some c ∧ c.srclocStr = k ∧
    c.count.toNat = countSum (containersAt k containers) ∧
    ∀ i, (c.totalStats i).total.toNat = totalSum i (containersAt k containers) ∧
      Extremes (c.totalStats i)
        ((containersAt k containers).map fun c => (c.totalStats i).min)
        ((containersAt k containers).map fun c => (c.totalStats i).max)
  count : s.count.toNat = countSum containers
  total : ∀ i, (s.totalStats i).total.toNat = totalSum i containers
  extremes : commits ≠ [] → ∀ i,
    Extremes (s.totalStats i) (commits.map fun c => c.2 i) (commits.map fun c => c.2 i)

/-- the grand total fits into 32 bits -/
def SumsFit (containers : List TxStat) : Prop :=
  countSum containers < 2 ^ 32 ∧ ∀ i, totalSum i containers < 2 ^ 32

/-- if something has been committed, then every statistic was 0 in some committed transaction -/
def ZerosCommitted (commits : List (UInt32 × (StatEntry → UInt32))) : Prop :=
  commits ≠ [] → ∀ i, ∃ c ∈ commits, c.2 i = 0

theorem countSum_perm {es es' : List TxStat} (h : es.Perm es') : countSum es = countSum es' :=
  (h.map _).sum_eq

theorem totalSum_perm (i : StatEntry) {es es' : List TxStat} (h : es.Perm es') :
    totalSum i es = totalSum i es' :=
  (h.map _).sum_eq

theorem sum_filter_le {A : Type} (f : A → Nat) (p : A → Bool) (l : List A) :
    ((l.filter p).map f).sum ≤ (l.map f).sum := by
  induction l with
  | nil => exact Nat.le_refl _
  | cons a l ih =>
    by_cases hp : p a = true
    · rw [List.filter_cons_of_pos hp, List.map_cons, List.map_cons, List.sum_cons, List.sum_cons]
      omega
    · rw [List.filter_cons_of_neg hp, List.map_cons, List.sum_cons]
      omega

/-- a merge that started with the neutral element -/
theorem extremes_mergeAll {l : List Stat} (hl : l ≠ []) :
    Extremes (mergeAll Stat.zero l) (l.map Stat.min) (l.map Stat.max) := by
  obtain ⟨d, hd⟩ := List.exists_mem_of_ne_nil l hl
  obtain ⟨hmin, hmax⟩ := mergeAll_mem Stat.zero l
  have hle := (mergeAll_min_le Stat.zero l).2
  have hge := (le_mergeAll_max Stat.zero l).2
  refine ⟨?_, fun x hx => ?_, ?_, fun x hx => ?_⟩
  · rcases hmin with hmin | ⟨s, hs, hmin⟩
    · -- the largest number is below `d.min`, so it is `d.min`
      have hd' := hle d hd
      rw [hmin] at hd' ⊢
      have heq : (0xFFFFFFFF : UInt32) = d.min := by
        refine UInt32.le_antisymm hd' ?_
        rw [UInt32.le_iff_toNat_le]
        have := d.min.toNat_lt
        simp only [UInt32.reduceToNat]
        omega
      exact List.mem_map.mpr ⟨d, hd, heq.symm⟩
    · exact List.mem_map.mpr ⟨s, hs, hmin.symm⟩
  · obtain ⟨s, hs, rfl⟩ := List.mem_map.mp hx
    exact hle s hs
  · rcases hmax with hmax | ⟨s, hs, hmax⟩
    · have hd' := hge d hd
      rw [hmax] at hd' ⊢
      exact List.mem_map.mpr ⟨d, hd, UInt32.le_antisymm hd' UInt32.zero_le⟩
    · exact List.mem_map.mpr ⟨s, hs, hmax.symm⟩
  · obtain ⟨s, hs, rfl⟩ := List.mem_map.mp hx
    exact hge s hs

theorem mergeAll_min_zero (l : List Stat) : (mergeAll ⟨0, 0, 0⟩ l).min = 0 :=
  UInt32.le_antisymm (mergeAll_min_le ⟨0, 0, 0⟩ l).1 UInt32.zero_le

/-- every counter of a committed transaction is in a container, and every maximum of a container is
a counter of a committed transaction -/
structure Covers (containers : List TxStat) (commits : List (UInt32 × (StatEntry → UInt32))) :
    Prop where
  le_max : ∀ i, ∀ x ∈ commits, ∃ c ∈ containers, x.2 i ≤ (c.totalStats i).max
  max_mem : ∀ i, ∀ c ∈ containers, ∃ x ∈ commits, (c.totalStats i).max = x.2 i

theorem mem_countersAt {k : UInt32} {commits : List (UInt32 × (StatEntry → UInt32))}
    {c : StatEntry → UInt32} : c ∈ countersAt k commits ↔ (k, c) ∈ commits := by
  unfold countersAt
  rw [List.mem_map]
  constructor
  · rintro ⟨⟨k', c'⟩, hm, rfl⟩
    obtain ⟨hm, hk⟩ := List.mem_filter.mp hm
    have hk : k' = k := by simpa using hk
    exact hk ▸ hm
  · exact fun hm => ⟨(k, c), List.mem_filter.mpr ⟨hm, decide_eq_true rfl⟩, rfl⟩

theorem ThreadReport.WellFormed.covers {t : ThreadReport} (h : t.WellFormed) :
    Covers t.containers t.commits := by
  refine ⟨fun i x hx => ?_, fun i c hc => ?_⟩
  · have hmem : x.2 ∈ countersAt x.1 t.commits := mem_countersAt.mpr hx
    obtain ⟨c, hc, _, hagg⟩ := (h.committed.container_iff x.1).2 (List.ne_nil_of_mem hmem)
    exact ⟨c, ((h.containers _ _).mp hc).1, hagg.le_max i _ hmem⟩
  · have hsome := (h.containers c.srclocStr c).mpr ⟨hc, rfl⟩
    obtain ⟨hne, hexact⟩ := h.committed.container _ _ hsome
    obtain ⟨x, hx, he⟩ := (aggregates_collected hexact.count hexact.stats).max_mem i hne
    exact ⟨(c.srclocStr, x), mem_countersAt.mp hx, he⟩

theorem covers_flatMap {threads : Nat → ThreadReport} {ids : List Nat}
    (hwf : ∀ t ∈ ids, (threads t).WellFormed) :
    Covers (ids.flatMap fun t => (threads t).containers)
      (ids.flatMap fun t => (threads t).commits) := by
  refine ⟨fun i x hx => ?_, fun i c hc => ?_⟩
  · obtain ⟨t, ht, hx⟩ := List.mem_flatMap.mp hx
    obtain ⟨c, hc, hle⟩ := (hwf t ht).covers.le_max i x hx
    exact ⟨c, List.mem_flatMap.mpr ⟨t, ht, hc⟩, hle⟩
  · obtain ⟨t, ht, hc⟩ := List.mem_flatMap.mp hc
    obtain ⟨x, hx, he⟩ := (hwf t ht).covers.max_mem i c hc
    exact ⟨x, List.mem_flatMap.mpr ⟨t, ht, hx⟩, he⟩

theorem Summarized.grand_min {es : List TxStat} {s : ThreadStat} (hs : Summarized es s)
    (i : StatEntry) : (s.totalStats i).min = 0 := by
  rw [hs.stats]
  exact mergeAll_min_zero _

section
variable {es containers : List TxStat} {commits : List (UInt32 × (StatEntry → UInt32))}
  {s : ThreadStat} (hs : Summarized es s) (hp : es.Perm containers)
include hs hp

theorem Summarized.count_eq : s.count.toNat = countSum containers % 2 ^ 32 := by
  rw [hs.count, countSum_perm hp]

theorem Summarized.total_eq (i : StatEntry) :
    (s.totalStats i).total.toNat = totalSum i containers % 2 ^ 32 := by
  rw [hs.stats, mergeAll_total, List.map_map, ← totalSum_perm i hp]
  exact congrArg (· % 2 ^ 32) (Nat.zero_add _)

/-- the merge of one location, if nothing overflows -/
theorem Summarized.location (hfit : SumsFit containers) (k : UInt32)
    (hne : containersAt k containers ≠ []) :
    ∃ c, s.txStats k = some c ∧ c.srclocStr = k ∧
      c.count.toNat = countSum (containersAt k containers) ∧
      ∀ i, (c.totalStats i).total.toNat = totalSum i (containersAt k containers) ∧
        Extremes (c.totalStats i)
          ((containersAt k containers).map fun c => (c.totalStats i).min)
          ((containersAt k containers).map fun c => (c.totalStats i).max) := by
  have hpk : (containersAt k es).Perm (containersAt k containers) := hp.filter _
  cases hc : s.txStats k with
  | none =>
    rw [hs.absent k hc] at hpk
    exact absurd (List.nil_perm.mp hpk) hne
  | some c =>
    obtain ⟨hne', hm⟩ := hs.container k c hc
    refine ⟨c, rfl, hm.srclocStr, ?_, fun i => ⟨?_, ?_⟩⟩
    · rw [hm.count, countSum_perm hpk]
      exact Nat.mod_eq_of_lt (Nat.lt_of_le_of_lt (sum_filter_le _ _ _) hfit.1)
    · rw [hm.stats, mergeAll_total, List.map_map, ← totalSum_perm i hpk]
      refine (congrArg (· % 2 ^ 32) (Nat.zero_add _)).trans (Nat.mod_eq_of_lt ?_)
      show totalSum i (containersAt k es) < 2 ^ 32
      rw [totalSum_perm i hpk]
      exact Nat.lt_of_le_of_lt (sum_filter_le _ _ _) (hfit.2 i)
    · have hext := extremes_mergeAll (l := (containersAt k es).map fun c => c.totalStats i)
        (by simpa using hne')
      rw [← hm.stats, List.map_map, List.map_map] at hext
      refine ⟨(hpk.map _).mem_iff.mp hext.min_mem, fun x hx => ?_,
        (hpk.map _).mem_iff.mp hext.max_mem, fun x hx => ?_⟩
      · exact hext.min_le x ((hpk.map _).mem_iff.mpr hx)
      · exact hext.le_max x ((hpk.map _).mem_iff.mpr hx)

/-- the maximum of the grand total starts at 0, which is neutral -/
theorem Summarized.grand_max (hcov : Covers containers commits) (hne : commits ≠ [])
    (i : StatEntry) : (s.totalStats i).max ∈ (commits.map fun c => c.2 i) ∧
      ∀ x ∈ (commits.map fun c => c.2 i), x ≤ (s.totalStats i).max := by
  have hge := (le_mergeAll_max ⟨0, 0, 0⟩ (es.map fun c => c.totalStats i)).2
  rw [← hs.stats] at hge
  have hle : ∀ x ∈ commits, x.2 i ≤ (s.totalStats i).max := by
    intro x hx
    obtain ⟨c, hc, hxc⟩ := hcov.le_max i x hx
    exact UInt32.le_trans hxc (hge _ (List.mem_map.mpr ⟨c, hp.mem_iff.mpr hc, rfl⟩))
  constructor
  · have hmem := (mergeAll_mem ⟨0, 0, 0⟩ (es.map fun c => c.totalStats i)).2
    rw [← hs.stats] at hmem
    rcases hmem with h0 | ⟨d, hd, he⟩
    · obtain ⟨x, hx⟩ := List.exists_mem_of_ne_nil commits hne
      have hx0 := hle x hx
      rw [h0] at hx0 ⊢
      exact List.mem_map.mpr ⟨x, hx, UInt32.le_antisymm hx0 UInt32.zero_le⟩
    · obtain ⟨c, hc, rfl⟩ := List.mem_map.mp hd
      obtain ⟨x, hx, hxe⟩ := hcov.max_mem i c (hp.mem_iff.mp hc)
      rw [he, hxe]
      exact List.mem_map.mpr ⟨x, hx, rfl⟩
  · intro x hx
    obtain ⟨c, hc, rfl⟩ := List.mem_map.mp hx
    exact hle c hc

theorem Summarized.exact_iff (hcov : Covers containers commits) :
    ReportExact containers commits s ↔ SumsFit containers ∧ ZerosCommitted commits := by
  constructor
  · intro h
    refine ⟨⟨?_, fun i => ?_⟩, fun hne i => ?_⟩
    · rw [← h.count]
      exact UInt32.toNat_lt _
    · rw [← h.total]
      exact UInt32.toNat_lt _
    · have hmem := (h.extremes hne i).min_mem
      rw [hs.grand_min] at hmem
      obtain ⟨c, hc, h0⟩ := List.mem_map.mp hmem
      exact ⟨c, hc, h0⟩
  · rintro ⟨hfit, hzero⟩
    refine ⟨fun k hk => ?_, hs.location hp hfit, ?_, fun i => ?_, fun hne i => ?_⟩
    · have hpk : (containersAt k es).Perm (containersAt k containers) := hp.filter _
      cases hc : s.txStats k with
      | none => rfl
      | some c =>
        rw [hk] at hpk
        exact absurd (List.perm_nil.mp hpk) (hs.container k c hc).1
    · rw [hs.count_eq hp]
      exact Nat.mod_eq_of_lt hfit.1
    · rw [hs.total_eq hp]
      exact Nat.mod_eq_of_lt (hfit.2 i)
    · obtain ⟨hmem, hle⟩ := hs.grand_max hp hcov hne i
      obtain ⟨c, hc, h0⟩ := hzero hne i
      refine ⟨?_, fun x hx => ?_, hmem, hle⟩
      · rw [hs.grand_min]
        exact List.mem_map.mpr ⟨c, hc, h0⟩
      · rw [hs.grand_min]
        exact UInt32.zero_le

end

/-- **The report.**  For every list of threads with well-formed containers, the summary is computed,
and it is exact if and only if its sums fit into 32 bits and, unless nothing has been committed,
every statistic was 0 in some committed transaction: the grand total starts with the minimum 0
where the threads' totals start with the largest number. -/
theorem report_exact_iff (threads : Nat → ThreadReport) (next : Nat → Option Nat)
    (head : Option Nat) (ids : List Nat) (hl : Seg next head ids none)
    (hwf : ∀ t ∈ ids, (threads t).WellFormed) :
    ∃ fuel₀, ∀ fuel ≥ fuel₀, ∃ s,
      statsPrintSummary next (fun t => (threads t).table) fuel head = some s ∧
      (ReportExact (ids.flatMap fun t => (threads t).containers)
          (ids.flatMap fun t => (threads t).commits) s ↔
        SumsFit (ids.flatMap fun t => (threads t).containers) ∧
          ZerosCommitted (ids.flatMap fun t => (threads t).commits)) := by
  obtain ⟨es, hp, fuel₀, h⟩ := statsSummarizeAll_spec threads ids hl hwf
  refine ⟨fuel₀, fun fuel hf => ?_⟩
  obtain ⟨s, hrun, hs⟩ := h fuel hf [] _ summarized_init
  exact ⟨s, hrun, hs.exact_iff hp (covers_flatMap hwf)⟩

/-! ## threads with one transaction -/

/-- the counters of a transaction at location 7 that has called `x_read` `v` times -/
def readTxstat (v : UInt32) : TxStat :=
  statsTxstatIncrement (statsTxstatInit emptyTxStat 7 ⟨0, 0, 1⟩) .xRead v

/-- the container of such a transaction -/
def readContainer (v : UInt32) : TxStat :=
  ⟨7, ⟨0, 0, 1⟩, 1, fun i => Stat.zero.collect ((readTxstat v).totalStats i).total⟩

def emptyTable : HashUse TxStat :=
  ⟨hashTableCreate 512 ⟨fun _ => none, fun _ => none, fun _ => 0, fun _ => emptyTxStat⟩, [],
    fun _ => none⟩

def readBucket : Fresh TxStat := ⟨0, none, none, 0, emptyTxStat⟩

def readThread (v : UInt32) : ThreadReport :=
  { stat := statsmgrCommitAction (readTxstat v) statsThreadstatCreate
    table := (hashTableInsert emptyTable.table (emptyTable.table.mem.write readBucket) none 7
      (readContainer v) 0 []).table
    containers := [readContainer v]
    commits := [(7, fun i => ((readTxstat v).totalStats i).total)] }

theorem readThread_txStats (v : UInt32) :
    (readThread v).stat.txStats = Function.update (fun _ => none) 7 (some (readContainer v)) := by
  funext k
  show Function.update (Function.update _ 7 _) 7 _ k = _
  by_cases hk : k = 7
  · subst hk
    rw [Function.update_self, Function.update_self]
    rfl
  · rw [Function.update_of_ne hk, Function.update_of_ne hk, Function.update_of_ne hk]
    rfl

theorem wellFormed_readThread (v : UInt32) : (readThread v).WellFormed := by
  refine ⟨?_, List.nodup_singleton _, fun k c => ?_, ?_⟩
  · have hrun : run hashStep emptyTable [.add 7 (readContainer v) readBucket]
        = some ⟨(readThread v).table, [0], Function.update (fun _ => none) 7
            (some (readContainer v))⟩ := rfl
    obtain ⟨L, F, hrep⟩ := rep_hash_reach (by decide) (reach_of_run _ hrun)
    exact ⟨[0], L, F, (readThread_txStats v).symm ▸ hrep⟩
  · rw [readThread_txStats]
    show _ ↔ c ∈ [readContainer v] ∧ c.srclocStr = k
    rw [List.mem_singleton]
    by_cases hk : k = 7
    · subst hk
      rw [Function.update_self, Option.some.injEq]
      exact ⟨fun h => h ▸ ⟨rfl, rfl⟩, fun h => h.1.symm⟩
    · rw [Function.update_of_ne hk]
      constructor
      · exact fun h => by cases h
      · rintro ⟨rfl, h⟩
        exact absurd h.symm hk
  · exact threadExact_create.commit (readTxstat v)

/-- two threads with a container for the same location: a transaction of the first has called
nothing, and one of the second has called `x_read` twice -/
def idleAndReading (t : Nat) : ThreadReport := if t = 0 then readThread 0 else readThread 2

def secondIsLast (t : Nat) : Option Nat := if t = 0 then some 1 else none

theorem report_exact_idleAndReading :
    ∃ fuel₀, ∀ fuel ≥ fuel₀, ∃ s,
      statsPrintSummary secondIsLast (fun t => (idleAndReading t).table) fuel (some 0) = some s ∧
      ReportExact [readContainer 0, readContainer 2]
        ((readThread 0).commits ++ (readThread 2).commits) s := by
  have hwf : ∀ t ∈ [0, 1], (idleAndReading t).WellFormed := by
    intro t _
    unfold idleAndReading
    split
    · exact wellFormed_readThread 0
    · exact wellFormed_readThread 2
  obtain ⟨fuel₀, h⟩ := report_exact_iff idleAndReading secondIsLast (some 0) [0, 1]
    ⟨rfl, rfl, rfl⟩ hwf
  refine ⟨fuel₀, fun fuel hf => ?_⟩
  obtain ⟨s, hrun, hiff⟩ := h fuel hf
  refine ⟨s, hrun, hiff.mpr ⟨⟨by decide, fun i => ?_⟩, fun _ i => ?_⟩⟩
  · cases i <;> decide
  · refine ⟨_, List.mem_cons_self, ?_⟩
    cases i <;> rfl

/-- one committed transaction with two calls of `x_read`: the grand minimum is 0 -/
theorem report_minimum_wrong :
    ∃ fuel s, statsPrintSummary (fun _ => none) (fun _ => (readThread 2).table) fuel (some 0)
        = some s ∧
      ((readThread 2).commits.map fun c => c.2 .xRead) = [2] ∧ (s.totalStats .xRead).min = 0 ∧
      ¬ ReportExact [readContainer 2] (readThread 2).commits s := by
  have hwf : ∀ t ∈ [0], ((fun _ => readThread 2 : Nat → ThreadReport) t).WellFormed :=
    fun _ _ => wellFormed_readThread 2
  obtain ⟨es, _, fuel, h⟩ := statsSummarizeAll_spec (fun _ => readThread 2)
    (show List Nat from [0]) (show Seg (fun _ => none) (some 0) [0] none from ⟨rfl, rfl⟩) hwf
  obtain ⟨s, hrun, hs⟩ := h fuel (Nat.le_refl _) [] _ summarized_init
  refine ⟨fuel, s, hrun, rfl, hs.grand_min _, fun hexact => ?_⟩
  have hmin := (hexact.extremes (List.cons_ne_nil _ _) .xRead).min_mem
  rw [hs.grand_min] at hmin
  exact absurd (List.mem_singleton.mp hmin) (by decide)

end XCalls
