import Mathlib

/-!
# Byte-addressed memory

* `load`, `store`       runs of bytes;
* `loadWord`, `storeWord`   words of 32 bits, the lowest byte first;
* `load_store`, `load_store_of_apart`   what a store does to a load.
-/

/-- a byte at every address -/
abbrev Memory := Nat → UInt8

namespace Memory
variable {μ : Memory} {p q n : Nat} {l : List UInt8}

def load (μ : Memory) (p n : Nat) : List UInt8 := (List.range n).map fun i => μ (p + i)

def store (μ : Memory) (p : Nat) (l : List UInt8) : Memory :=
  fun a => if p ≤ a then (l[a - p]?).getD (μ a) else μ a

@[simp] theorem length_load : (load μ p n).length = n := by simp [load]

/-- the addresses of the store do not meet those of the load -/
def Apart (p n q k : Nat) : Prop := p + n ≤ q ∨ q + k ≤ p

theorem store_of_lt {a : Nat} (h : a < p) : store μ p l a = μ a := if_neg (Nat.not_le.mpr h)

theorem store_of_le {a : Nat} (h : p + l.length ≤ a) : store μ p l a = μ a := by
  rw [store, if_pos (by omega), List.getElem?_eq_none (by omega)]
  rfl

theorem load_store : load (store μ p l) p l.length = l := by
  apply List.ext_getElem
  · simp
  · intro i hi hl
    simp only [load, List.getElem_map, List.getElem_range, store, Nat.le_add_right, if_true,
      Nat.add_sub_cancel_left, List.getElem?_eq_getElem hl, Option.getD_some]

theorem load_congr {ν : Memory} (h : ∀ a, p ≤ a → a < p + n → ν a = μ a) :
    load ν p n = load μ p n := by
  apply List.map_congr_left
  intro i hi
  rw [List.mem_range] at hi
  exact h (p + i) (Nat.le_add_right _ _) (by omega)

theorem load_store_of_apart (h : Apart p l.length q n) : load (store μ p l) q n = load μ q n := by
  apply load_congr
  intro a h1 h2
  rcases h with h | h
  · exact store_of_le (by omega)
  · exact store_of_lt (by omega)

theorem store_load {ν : Memory} {k : Nat} (h : k < n) : store μ p (load ν q n) (p + k) = ν (q + k) := by
  have hlen : k < (load ν q n).length := by rw [length_load]; exact h
  rw [store, if_pos (Nat.le_add_right p k), Nat.add_sub_cancel_left, List.getElem?_eq_getElem hlen]
  simp [load]

/-! ## words -/

/-- the bytes of a word, the lowest first -/
def wordBytes (w : UInt32) : List UInt8 :=
  [UInt8.ofNat w.toNat, UInt8.ofNat (w.toNat / 256), UInt8.ofNat (w.toNat / 65536),
    UInt8.ofNat (w.toNat / 16777216)]

def storeWord (μ : Memory) (p : Nat) (w : UInt32) : Memory := store μ p (wordBytes w)

def loadWord (μ : Memory) (p : Nat) : UInt32 :=
  UInt32.ofNat ((μ p).toNat + 256 * (μ (p + 1)).toNat + 65536 * (μ (p + 2)).toNat
    + 16777216 * (μ (p + 3)).toNat)

theorem loadWord_congr {ν : Memory} (h : ∀ a, p ≤ a → a < p + 4 → ν a = μ a) :
    loadWord ν p = loadWord μ p := by
  unfold loadWord
  rw [h p (by omega) (by omega), h (p + 1) (by omega) (by omega), h (p + 2) (by omega) (by omega),
    h (p + 3) (by omega) (by omega)]

theorem loadWord_store_of_apart (h : Apart p l.length q 4) :
    loadWord (store μ p l) q = loadWord μ q := by
  apply loadWord_congr
  intro a h1 h2
  rcases h with h | h
  · exact store_of_le (by omega)
  · exact store_of_lt (by omega)

theorem loadWord_storeWord (w : UInt32) : loadWord (storeWord μ p w) p = w := by
  have hbyte : ∀ i (hi : i < 4), storeWord μ p w (p + i) = (wordBytes w)[i] := by
    intro i hi
    have hlen : i < (wordBytes w).length := hi
    simp only [storeWord, store, Nat.le_add_right, if_true, Nat.add_sub_cancel_left,
      List.getElem?_eq_getElem hlen, Option.getD_some]
    rfl
  have h0 : storeWord μ p w p = _ := hbyte 0 (by omega)
  have hw := w.toNat_lt
  apply UInt32.toNat.inj
  rw [loadWord, h0, hbyte 1 (by omega), hbyte 2 (by omega), hbyte 3 (by omega)]
  simp only [wordBytes, List.getElem_cons_zero, List.getElem_cons_succ, UInt8.toNat_ofNat',
    UInt32.toNat_ofNat']
  omega

theorem loadWord_store_load {ν : Memory} {k : Nat} (h : k + 4 ≤ n) :
    loadWord (store μ p (load ν q n)) (p + k) = loadWord ν (q + k) := by
  have hbyte : ∀ i, i < 4 → store μ p (load ν q n) (p + k + i) = ν (q + k + i) := by
    intro i hi
    rw [Nat.add_assoc, store_load (by omega), Nat.add_assoc]
  unfold loadWord
  rw [hbyte 1 (by omega), hbyte 2 (by omega), hbyte 3 (by omega)]
  rw [show store μ p (load ν q n) (p + k) = ν (q + k) from hbyte 0 (by omega)]

theorem loadWord_storeWord_of_apart {w : UInt32} (h : Apart p 4 q 4) :
    loadWord (storeWord μ p w) q = loadWord μ q := loadWord_store_of_apart h

theorem load_storeWord_of_apart {w : UInt32} (h : Apart p 4 q n) :
    load (storeWord μ p w) q n = load μ q n := load_store_of_apart h

end Memory
