import XCalls.Lib.Memory

/-!
# Records in memory

A record is written field by field, each field at its offset; a string is copied up to its NUL,
however long it is.

* `StringAt`       the string that starts at an address;
* `Field`          a word or a string, `Field.At` where it is found;
* `write`          the fields in the order in which they are written;
* `at_write`       a field is found if those that are written behind it lie apart from it;
* `write_eq_of_lt`, `write_eq_of_apart`   what a write leaves alone.
-/

namespace Memory
variable {μ ν : Memory} {p n : Nat}

/-- the characters from `p` to the first NUL are `s` -/
def StringAt (μ : Memory) (p : Nat) (s : List UInt8) : Prop :=
  load μ p (s.length + 1) = s ++ [0] ∧ 0 ∉ s

theorem load_get {i : Nat} (h : i < n) : (load μ p n)[i]? = some (μ (p + i)) := by
  rw [load, List.getElem?_map, List.getElem?_range h]
  rfl

theorem StringAt.get {s : List UInt8} (h : StringAt μ p s) {i : Nat} (hi : i ≤ s.length) :
    some (μ (p + i)) = (s ++ [0])[i]? := by
  rw [← h.1, load_get (by omega)]

theorem StringAt.length_le {s t : List UInt8} (hs : StringAt μ p s) (ht : StringAt μ p t) :
    s.length ≤ t.length := by
  by_contra hlt
  have hend : (t ++ [0])[t.length]? = some 0 := by simp
  have hnul : some 0 = (s ++ [0])[t.length]? := by
    rw [← hs.get (by omega), ht.get (Nat.le_refl _), hend]
  rw [List.getElem?_append_left (by omega)] at hnul
  exact hs.2 (List.mem_of_getElem? hnul.symm)

theorem StringAt.unique {s t : List UInt8} (hs : StringAt μ p s) (ht : StringAt μ p t) : s = t := by
  have hlen : s.length = t.length := Nat.le_antisymm (hs.length_le ht) (ht.length_le hs)
  have happ : s ++ [0] = t ++ [0] := by rw [← hs.1, ← ht.1, hlen]
  exact List.append_cancel_right happ

/-! ## fields -/

inductive Field where
  | word (w : UInt32)
  | string (s : List UInt8)
  deriving DecidableEq

namespace Field

/-- what is written for the field -/
def bytes : Field → List UInt8
  | word w => wordBytes w
  | string s => s ++ [0]

@[simp] theorem length_word (w : UInt32) : (word w).bytes.length = 4 := rfl

@[simp] theorem length_string (s : List UInt8) : (string s).bytes.length = s.length + 1 :=
  List.length_append

def At (μ : Memory) (p : Nat) : Field → Prop
  | word w => loadWord μ p = w
  | string s => StringAt μ p s

def Ends : Field → Prop
  | word _ => True
  | string s => 0 ∉ s

theorem at_store {f : Field} (h : f.Ends) : f.At (store μ p f.bytes) p := by
  cases f with
  | word w => exact loadWord_storeWord w
  | string s =>
    refine ⟨?_, h⟩
    have hlen : s.length + 1 = (s ++ [0]).length := by simp
    rw [hlen]
    exact load_store

theorem At.congr {f : Field} (h : f.At μ p)
    (hν : ∀ a, p ≤ a → a < p + f.bytes.length → ν a = μ a) : f.At ν p := by
  cases f with
  | word w => exact (loadWord_congr hν).trans h
  | string s =>
    refine ⟨?_, h.2⟩
    rw [← h.1]
    refine load_congr fun a h1 h2 => hν a h1 ?_
    rw [bytes, List.length_append]
    exact h2

end Field

/-! ## records -/

/-- the fields are written one after the other, each at its offset -/
def write (μ : Memory) (p : Nat) (fs : List (Nat × Field)) : Memory :=
  fs.foldl (fun μ f => store μ (p + f.1) f.2.bytes) μ

theorem write_append (fs gs : List (Nat × Field)) :
    write μ p (fs ++ gs) = write (write μ p fs) p gs := List.foldl_append

theorem write_eq_of_lt (fs : List (Nat × Field)) {a : Nat} (h : a < p) : write μ p fs a = μ a := by
  induction fs generalizing μ with
  | nil => rfl
  | cons f fs ih =>
    show write (store μ (p + f.1) f.2.bytes) p fs a = μ a
    rw [ih, store_of_lt (by omega)]

theorem write_eq_of_apart {fs : List (Nat × Field)} {a : Nat}
    (h : ∀ f ∈ fs, a < p + f.1 ∨ p + f.1 + f.2.bytes.length ≤ a) : write μ p fs a = μ a := by
  induction fs generalizing μ with
  | nil => rfl
  | cons f fs ih =>
    show write (store μ (p + f.1) f.2.bytes) p fs a = μ a
    rw [ih fun g hg => h g (List.mem_cons_of_mem f hg)]
    rcases h f List.mem_cons_self with hlt | hle
    · exact store_of_lt hlt
    · exact store_of_le hle

theorem at_write {fs gs : List (Nat × Field)} {f : Nat × Field} (hend : f.2.Ends)
    (h : ∀ g ∈ gs, Apart g.1 g.2.bytes.length f.1 f.2.bytes.length) :
    f.2.At (write μ p (fs ++ f :: gs)) (p + f.1) := by
  rw [write_append]
  show f.2.At (write (store (write μ p fs) (p + f.1) f.2.bytes) p gs) (p + f.1)
  refine (Field.at_store hend).congr fun a h1 h2 => write_eq_of_apart fun g hg => ?_
  rcases h g hg with hg | hg
  · exact Or.inr (by omega)
  · exact Or.inl (by omega)

end Memory
