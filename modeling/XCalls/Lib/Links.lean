import Mathlib

/-!
# Intrusive doubly linked lists

The link fields of the nodes are functions `next prev : A → Option A` (`none` is `NULL`).

* `assign f o v`    `if (o) o->f = v`;
* `Seg next h l t`  following `next` from `h` visits the nodes of `l` and arrives at `t`;
* `Back prev q l`   every node of `l` has its predecessor in `prev`, the first one has `q`;
* `scan`, `probe`, `visit`   a walk along `next`, up to the first node that passes a test or to
                    the end.

`Seg` and `Back` are kept by writes to other nodes (`Seg.update`, `Back.update`), by a node put behind
(`Seg.snoc`, `Back.snoc`) and by one taken out (`Seg.unlink`, `Back.unlink`); `Seg.push`: a node put in
front.
-/

set_option linter.unusedSectionVars false

namespace Links
variable {A : Type} [DecidableEq A]

/-- the field of the node that `o` points to, if there is one -/
def assign {V : Type} (f : A → V) (o : Option A) (v : V) : A → V :=
  match o with
  | none => f
  | some a => Function.update f a v

@[simp] theorem assign_none {V : Type} (f : A → V) (v : V) : assign f none v = f := rfl

@[simp] theorem assign_some {V : Type} (f : A → V) (a : A) (v : V) :
    assign f (some a) v = Function.update f a v := rfl

theorem assign_of_ne {V : Type} (f : A → V) {o : Option A} (v : V) {b : A} (h : o ≠ some b) :
    assign f o v b = f b := by
  cases o with
  | none => rfl
  | some a => exact Function.update_of_ne (fun hb => h (congrArg some hb.symm)) _ _

/-! ## forward -/

def Seg (next : A → Option A) : Option A → List A → Option A → Prop
  | h, [], t => h = t
  | h, a :: l, t => h = some a ∧ Seg next (next a) l t

theorem Seg.head {next : A → Option A} {h : Option A} {l : List A}
    (hs : Seg next h l none) : h = l.head? := by
  cases l with
  | nil => exact hs
  | cons a l => exact hs.1

theorem seg_append (next : A → Option A) (h t : Option A) (l₁ l₂ : List A) :
    Seg next h (l₁ ++ l₂) t ↔ ∃ m, Seg next h l₁ m ∧ Seg next m l₂ t := by
  induction l₁ generalizing h with
  | nil =>
    constructor
    · exact fun hs => ⟨h, rfl, hs⟩
    · rintro ⟨m, rfl, hs⟩
      exact hs
  | cons a l₁ ih =>
    simp only [List.cons_append, Seg, ih]
    constructor
    · rintro ⟨h1, m, h2, h3⟩
      exact ⟨m, ⟨h1, h2⟩, h3⟩
    · rintro ⟨m, ⟨h1, h2⟩, h3⟩
      exact ⟨h1, m, h2, h3⟩

/-- a segment depends on the fields of its own nodes -/
theorem Seg.congr {next next' : A → Option A} {h t : Option A} {l : List A}
    (hs : Seg next h l t) (heq : ∀ a ∈ l, next' a = next a) : Seg next' h l t := by
  induction l generalizing h with
  | nil => exact hs
  | cons a l ih =>
    refine ⟨hs.1, ?_⟩
    rw [heq a List.mem_cons_self]
    exact ih hs.2 fun b hb => heq b (List.mem_cons_of_mem _ hb)

theorem Seg.update {next : A → Option A} {h t : Option A} {l : List A} (hs : Seg next h l t)
    {a : A} (ha : a ∉ l) (v : Option A) : Seg (Function.update next a v) h l t := by
  refine hs.congr fun b hb => Function.update_of_ne ?_ _ _
  rintro rfl
  exact ha hb

theorem Seg.assign {next : A → Option A} {h t : Option A} {l : List A} (hs : Seg next h l t)
    {o : Option A} (ho : ∀ a ∈ o, a ∉ l) (v : Option A) : Seg (assign next o v) h l t := by
  cases o with
  | none => exact hs
  | some a => exact hs.update (ho a rfl) v

theorem Seg.push {next : A → Option A} {h t : Option A} {l : List A} (hs : Seg next h l t)
    {a : A} (ha : a ∉ l) : Seg (Function.update next a h) (some a) (a :: l) t := by
  refine ⟨rfl, ?_⟩
  rw [Function.update_self]
  exact hs.update ha h

theorem Seg.last {next : A → Option A} {h t : Option A} {l : List A} {b : A}
    (hs : Seg next h (l ++ [b]) t) : next b = t := by
  obtain ⟨m, _, _, h2⟩ := (seg_append next h t l [b]).mp hs
  exact h2

theorem Seg.redirect {next : A → Option A} {h t : Option A} {l : List A} {b : A}
    (hs : Seg next h (l ++ [b]) t) (hnd : (l ++ [b]).Nodup) (v : Option A) :
    Seg (Function.update next b v) h (l ++ [b]) v := by
  obtain ⟨m, h1, h2, _⟩ := (seg_append next h t l [b]).mp hs
  have hb : b ∉ l := by
    intro hb
    exact (List.nodup_append.mp hnd).2.2 b hb b (List.mem_singleton.mpr rfl) rfl
  exact (seg_append _ h v l [b]).mpr ⟨m, h1.update hb v, h2, Function.update_self ..⟩

def headAfter (h : Option A) (l₁ l₂ : List A) : Option A := if l₁ = [] then l₂.head? else h

theorem Seg.unlink {next : A → Option A} {h : Option A} {l₁ l₂ : List A} {a : A}
    (hs : Seg next h (l₁ ++ a :: l₂) none) (hnd : (l₁ ++ a :: l₂).Nodup) :
    Seg (Links.assign next l₁.getLast? (next a)) (headAfter h l₁ l₂) (l₁ ++ l₂) none := by
  obtain ⟨m, h1, hm, h2⟩ := (seg_append next h none l₁ (a :: l₂)).mp hs
  have hdis := List.nodup_append.mp hnd
  cases l₁ using List.reverseRecOn with
  | nil =>
    show Seg next l₂.head? l₂ none
    rw [← h2.head]
    exact h2
  | append_singleton l b =>
    have hb : b ∉ l₂ := by
      intro hb
      exact hdis.2.2 b (by simp) b (List.mem_cons_of_mem _ hb) rfl
    rw [List.getLast?_concat]
    refine (seg_append _ _ none (l ++ [b]) l₂).mpr ⟨next a, ?_, h2.update hb _⟩
    have hh : headAfter h (l ++ [b]) l₂ = h := if_neg (by simp)
    rw [hh]
    exact h1.redirect hdis.1 (next a)

theorem Seg.snoc {next : A → Option A} {h : Option A} {l : List A} (hs : Seg next h l none)
    (hnd : l.Nodup) {a : A} (ha : a ∉ l) (hnull : next a = none) :
    Seg (Links.assign next l.getLast? (some a)) (if l = [] then some a else h) (l ++ [a]) none := by
  cases l using List.reverseRecOn with
  | nil => exact ⟨rfl, hnull⟩
  | append_singleton l b =>
    have hab : a ≠ b := fun hab => ha (by simp [hab])
    rw [List.getLast?_concat, if_neg (by simp)]
    refine (seg_append _ h none (l ++ [b]) [a]).mpr ⟨some a, hs.redirect hnd (some a), rfl, ?_⟩
    show Function.update next b (some a) a = none
    rw [Function.update_of_ne hab, hnull]

/-! ## backward -/

def Back (prev : A → Option A) : Option A → List A → Prop
  | _, [] => True
  | q, a :: l => prev a = q ∧ Back prev (some a) l

theorem back_append (prev : A → Option A) (q : Option A) (l₁ l₂ : List A) :
    Back prev q (l₁ ++ l₂) ↔ Back prev q l₁ ∧ Back prev (l₁.getLast?.or q) l₂ := by
  induction l₁ generalizing q with
  | nil => simp [Back]
  | cons a l₁ ih =>
    rw [List.cons_append, Back, ih, Back, and_assoc, List.getLast?_cons]
    cases l₁.getLast? <;> rfl

theorem Back.congr {prev prev' : A → Option A} {q : Option A} {l : List A} (hb : Back prev q l)
    (heq : ∀ a ∈ l, prev' a = prev a) : Back prev' q l := by
  induction l generalizing q with
  | nil => trivial
  | cons a l ih =>
    refine ⟨?_, ih hb.2 fun b hb' => heq b (List.mem_cons_of_mem _ hb')⟩
    rw [heq a List.mem_cons_self]
    exact hb.1

theorem Back.update {prev : A → Option A} {q : Option A} {l : List A} (hb : Back prev q l)
    {a : A} (ha : a ∉ l) (v : Option A) : Back (Function.update prev a v) q l := by
  refine hb.congr fun b hb => Function.update_of_ne ?_ _ _
  rintro rfl
  exact ha hb

theorem Back.assign {prev : A → Option A} {q : Option A} {l : List A} (hb : Back prev q l)
    {o : Option A} (ho : ∀ a ∈ o, a ∉ l) (v : Option A) : Back (assign prev o v) q l := by
  cases o with
  | none => exact hb
  | some a => exact hb.update (ho a rfl) v

theorem Back.rehead {prev : A → Option A} {q : Option A} {l : List A} (hb : Back prev q l)
    (hnd : l.Nodup) (v : Option A) : Back (Links.assign prev l.head? v) v l := by
  cases l with
  | nil => trivial
  | cons a l =>
    refine ⟨Function.update_self .., ?_⟩
    exact hb.2.update (List.nodup_cons.mp hnd).1 v

theorem Back.unlink {prev : A → Option A} {q : Option A} {l₁ l₂ : List A} {a : A}
    (hb : Back prev q (l₁ ++ a :: l₂)) (hnd : (l₁ ++ a :: l₂).Nodup) :
    Back (Links.assign prev l₂.head? (prev a)) q (l₁ ++ l₂) := by
  obtain ⟨h1, ha, h2⟩ := (back_append prev q l₁ (a :: l₂)).mp hb
  have hdis := List.nodup_append.mp hnd
  refine (back_append _ q l₁ l₂).mpr ⟨h1.assign ?_ _, ?_⟩
  · intro b hb' hmem
    have hb2 : b ∈ l₂ := List.mem_of_head? hb'
    exact hdis.2.2 b hmem b (List.mem_cons_of_mem _ hb2) rfl
  · rw [← ha]
    exact h2.rehead (List.nodup_cons.mp hdis.2.1).2 _

theorem Back.snoc {prev : A → Option A} {q : Option A} {l : List A} (hb : Back prev q l)
    {a : A} (ha : a ∉ l) : Back (Function.update prev a (l.getLast?.or q)) q (l ++ [a]) :=
  (back_append _ q l [a]).mpr ⟨hb.update ha _, Function.update_self .., trivial⟩

theorem Back.at {prev : A → Option A} {q : Option A} {l₁ l₂ : List A} {a : A}
    (hb : Back prev q (l₁ ++ a :: l₂)) : prev a = l₁.getLast?.or q :=
  ((back_append prev q l₁ (a :: l₂)).mp hb).2.1

theorem Seg.at {next : A → Option A} {h : Option A} {l₁ l₂ : List A} {a : A}
    (hs : Seg next h (l₁ ++ a :: l₂) none) : next a = l₂.head? := by
  obtain ⟨m, _, _, h2⟩ := (seg_append next h none l₁ (a :: l₂)).mp hs
  exact h2.head

theorem Back.walk {prev : A → Option A} {q : Option A} {l : List A} (hb : Back prev q l) :
    Seg prev (l.getLast?.or q) l.reverse q := by
  induction l using List.reverseRecOn with
  | nil => rfl
  | append_singleton l a ih =>
    obtain ⟨h1, h2, _⟩ := (back_append prev q l [a]).mp hb
    rw [List.reverse_append, List.getLast?_concat]
    refine ⟨rfl, ?_⟩
    rw [h2]
    exact ih h1

/-! ## walks -/

/-- the walk from `h`: the first node that passes the test, or `NULL`; `none` without fuel -/
def scan (next : A → Option A) (test : A → Bool) : Nat → Option A → Option (Option A)
  | _, none => some none
  | 0, some _ => none
  | fuel + 1, some a => if test a then some (some a) else scan next test fuel (next a)

/-- a walk of a list ends, and finds what is in the list -/
theorem Seg.scan_eq {next : A → Option A} {h : Option A} {l : List A} (hs : Seg next h l none)
    (test : A → Bool) {fuel : Nat} (hf : l.length ≤ fuel) :
    scan next test fuel h = some (l.find? test) := by
  induction l generalizing h fuel with
  | nil =>
    have h0 : h = none := hs
    subst h0
    cases fuel <;> rfl
  | cons a l ih =>
    obtain ⟨rfl, hs⟩ := hs
    obtain ⟨f, rfl⟩ : ∃ f, fuel = f + 1 := ⟨fuel - 1, by simp at hf; omega⟩
    rw [scan, List.find?_cons]
    cases ht : test a with
    | true => rfl
    | false =>
      simp only [Bool.false_eq_true, if_false]
      exact ih hs (by simpa using hf)

/-- the walk of `scan` with the nodes that it has looked at -/
def probe (next : A → Option A) (test : A → Bool) :
    Nat → Option A → Option (List A × Option A)
  | _, none => some ([], none)
  | 0, some _ => none
  | fuel + 1, some a =>
    if test a then some ([a], some a)
    else (probe next test fuel (next a)).map fun r => (a :: r.1, r.2)

theorem Seg.probe_eq {next : A → Option A} {h : Option A} {l : List A} (hs : Seg next h l none)
    (test : A → Bool) :
    ∃ seen, (∀ fuel ≥ l.length, probe next test fuel h = some (seen, l.find? test)) ∧
      ∀ a ∈ seen, a ∈ l := by
  induction l generalizing h with
  | nil =>
    have h0 : h = none := hs
    subst h0
    refine ⟨[], fun fuel _ => ?_, fun a ha => ha⟩
    cases fuel <;> rfl
  | cons a l ih =>
    obtain ⟨rfl, hs⟩ := hs
    obtain ⟨seen, hseen, hsub⟩ := ih hs
    rw [List.find?_cons]
    cases ht : test a with
    | true =>
      refine ⟨[a], fun fuel hf => ?_, fun b hb => ?_⟩
      · obtain ⟨f, rfl⟩ : ∃ f, fuel = f + 1 := ⟨fuel - 1, by simp at hf; omega⟩
        rw [probe, ht]
        rfl
      · rw [List.mem_singleton.mp hb]
        exact List.mem_cons_self
    | false =>
      refine ⟨a :: seen, fun fuel hf => ?_, fun b hb => ?_⟩
      · obtain ⟨f, rfl⟩ : ∃ f, fuel = f + 1 := ⟨fuel - 1, by simp at hf; omega⟩
        rw [probe, ht, hseen f (by simpa using hf)]
        rfl
      · rcases List.mem_cons.mp hb with rfl | hb
        · exact List.mem_cons_self
        · exact List.mem_cons_of_mem _ (hsub b hb)

/-- the nodes of the walk from `h` -/
def visit (next : A → Option A) : Nat → Option A → Option (List A)
  | _, none => some []
  | 0, some _ => none
  | fuel + 1, some a => (visit next fuel (next a)).map (a :: ·)

theorem Seg.visit_eq {next : A → Option A} {h : Option A} {l : List A} (hs : Seg next h l none)
    {fuel : Nat} (hf : l.length ≤ fuel) : visit next fuel h = some l := by
  induction l generalizing h fuel with
  | nil =>
    have h0 : h = none := hs
    subst h0
    cases fuel <;> rfl
  | cons a l ih =>
    obtain ⟨rfl, hs⟩ := hs
    obtain ⟨f, rfl⟩ : ∃ f, fuel = f + 1 := ⟨fuel - 1, by simp at hf; omega⟩
    rw [visit, ih hs (by simpa using hf), Option.map_some]

end Links
