import XCalls.Lib.CString

/-!
# Arrays of characters

* `CArray n`    an array of `n` characters;
* `get`, `put`  one character; an access behind the end is a `Fault`;
* `store`, `str`, `strlen`, `strcpy`, `strtok`   the C functions on arrays, where `strtok` also
                returns the place at which the next call goes on;
* `Holds p s`   the string `s` starts at `p`, and ends within the array.
-/

namespace CString

structure CArray (n : Nat) where
  chars : List Char
  size : chars.length = n

/-- why a function on arrays does not return -/
inductive Fault where
  /-- a character is written behind the end -/
  | write (i : Nat)
  /-- characters are read behind the end -/
  | read
  | outOfFuel
  deriving DecidableEq, Repr

namespace CArray
variable {n : Nat}

/-! ## the functions -/

def get (a : CArray n) (i : Nat) : Except Fault Char :=
  match a.chars[i]? with
  | none => .error .read
  | some c => .ok c

def put (a : CArray n) (i : Nat) (c : Char) : Except Fault (CArray n) :=
  if i < n then .ok ⟨a.chars.set i c, by rw [List.length_set, a.size]⟩ else .error (.write i)

/-- the characters are written one by one -/
def store (a : CArray n) (i : Nat) : List Char → Except Fault (CArray n)
  | [] => .ok a
  | c :: l =>
    match a.put i c with
    | .error e => .error e
    | .ok a => store a (i + 1) l

def str (a : CArray n) (p : Nat) : Except Fault (List Char) :=
  if '\x00' ∈ a.chars.drop p then .ok (cstr (a.chars.drop p)) else .error .read

def strlen (a : CArray n) (p : Nat) : Except Fault Nat := (a.str p).map List.length

def strcpy (dst : CArray n) (p : Nat) (s : List Char) : Except Fault (CArray n) :=
  dst.store p (s ++ ['\x00'])

/-- the array, where the token starts, and where the next call goes on -/
def strtok (delim : Char) (a : CArray n) (p : Nat) : Except Fault (CArray n × Option Nat × Nat) := do
  let s ← a.str p
  let start := p + (s.takeWhile (· = delim)).length
  match s.dropWhile (· = delim) with
  | [] => return (a, none, start)
  | c :: t =>
    let stop := start + ((c :: t).takeWhile (· ≠ delim)).length
    -- the delimiter is overwritten, if there is one
    if stop = start + (c :: t).length then return (a, some start, stop)
    else return (← a.put stop '\x00', some start, stop + 1)

/-! ## strings -/

/-- the string `s` starts at `p` -/
def Holds (a : CArray n) (p : Nat) (s : List Char) : Prop :=
  ∃ l t, a.chars = l ++ (s ++ '\x00' :: t) ∧ l.length = p ∧ '\x00' ∉ s

def Terminated (a : CArray n) : Prop := '\x00' ∈ a.chars

section
variable {a : CArray n} {p : Nat} {s : List Char}

theorem Holds.terminated (h : a.Holds p s) : a.Terminated := by
  obtain ⟨l, t, hc, _, _⟩ := h
  rw [Terminated, hc]
  simp

theorem Holds.no_nul (h : a.Holds p s) : '\x00' ∉ s := by
  obtain ⟨_, _, _, _, hn⟩ := h
  exact hn

theorem Holds.lt (h : a.Holds p s) : p + s.length < n := by
  obtain ⟨l, t, hc, hl, _⟩ := h
  have hsize := a.size
  rw [hc, List.length_append, List.length_append, List.length_cons] at hsize
  omega

theorem Holds.str_eq (h : a.Holds p s) : a.str p = .ok s := by
  obtain ⟨l, t, hc, hl, hn⟩ := h
  have hdrop : a.chars.drop p = s ++ '\x00' :: t := by rw [hc, ← hl, List.drop_left]
  rw [str, hdrop, if_pos (by simp), cstr, List.takeWhile_append_of_pos (all_ne hn)]
  simp

theorem Holds.strlen_eq (h : a.Holds p s) : a.strlen p = .ok s.length := by
  rw [strlen, h.str_eq]
  rfl

theorem Holds.get_nil (h : a.Holds p []) : a.get p = .ok '\x00' := by
  obtain ⟨l, t, hc, hl, _⟩ := h
  rw [get, hc, List.getElem?_append_right (by omega), hl, Nat.sub_self]
  rfl

theorem Holds.get_cons {c : Char} (h : a.Holds p (c :: s)) : a.get p = .ok c := by
  obtain ⟨l, t, hc, hl, _⟩ := h
  rw [get, hc, List.getElem?_append_right (by omega), hl, Nat.sub_self]
  rfl

theorem Holds.drop {u : List Char} (h : a.Holds p (u ++ s)) : a.Holds (p + u.length) s := by
  obtain ⟨l, t, hc, hl, hn⟩ := h
  refine ⟨l ++ u, t, ?_, ?_, fun hm => hn (List.mem_append_right _ hm)⟩
  · rw [hc]
    simp
  · rw [List.length_append, hl]

theorem Holds.put_nul {u : List Char} {c : Char} (h : a.Holds p (u ++ c :: s)) :
    ∃ a', a.put (p + u.length) '\x00' = .ok a' ∧ a'.Holds p u ∧ a'.Holds (p + u.length + 1) s := by
  have hlt : p + u.length < n := by
    have := h.lt
    rw [List.length_append] at this
    omega
  obtain ⟨l, t, hc, hl, hn⟩ := h
  have hset : a.chars.set (p + u.length) '\x00' = l ++ (u ++ '\x00' :: (s ++ '\x00' :: t)) := by
    rw [hc, ← hl, List.set_append_right _ _ (by omega), Nat.add_sub_cancel_left,
      List.append_assoc, List.set_append_right _ _ (Nat.le_refl _), Nat.sub_self]
    rfl
  refine ⟨_, if_pos hlt, ⟨l, s ++ '\x00' :: t, hset, hl, ?_⟩, ⟨l ++ u ++ ['\x00'], t, ?_, ?_, ?_⟩⟩
  · exact fun hm => hn (List.mem_append_left _ hm)
  · refine hset.trans ?_
    simp
  · rw [List.length_append, List.length_append, hl]
    rfl
  · exact fun hm => hn (List.mem_append_right _ (List.mem_cons_of_mem _ hm))

end

/-! ## copies -/

theorem store_ok (l : List Char) (a : CArray n) {p : Nat} (h : p + l.length ≤ n) :
    ∃ a', a.store p l = .ok a' ∧
      a'.chars = a.chars.take p ++ (l ++ a.chars.drop (p + l.length)) := by
  induction l generalizing a p with
  | nil => exact ⟨a, rfl, (List.take_append_drop p a.chars).symm⟩
  | cons c l ih =>
    rw [List.length_cons] at h
    have hp : p < n := by omega
    obtain ⟨a', hs, hc⟩ := ih ⟨a.chars.set p c, by rw [List.length_set, a.size]⟩
      (p := p + 1) (by omega)
    refine ⟨a', ?_, ?_⟩
    · rw [store, put, if_pos hp]
      exact hs
    · have hlen : p < a.chars.length := by rw [a.size]; exact hp
      rw [hc, List.take_succ_eq_append_getElem (by rw [List.length_set]; exact hlen),
        List.getElem_set_self, List.take_set_of_le (Nat.le_refl p), List.drop_set_of_lt (by omega),
        List.length_cons, List.append_assoc, Nat.add_assoc, Nat.add_comm 1]
      rfl

/-- a copy that does not fit writes the first character behind the end -/
theorem store_error (l : List Char) (a : CArray n) {p : Nat} (hp : p ≤ n) (h : n < p + l.length) :
    a.store p l = .error (.write n) := by
  induction l generalizing a p with
  | nil =>
    rw [List.length_nil] at h
    omega
  | cons c l ih =>
    rw [List.length_cons] at h
    by_cases hlt : p < n
    · rw [store, put, if_pos hlt]
      exact ih _ (by omega) (by omega)
    · have heq : p = n := by omega
      rw [store, put, if_neg hlt, heq]

theorem store_cstr (l : List Char) (a : CArray n) {p : Nat} (h : p + l.length < n) :
    ∃ a', a.store p (l ++ ['\x00']) = .ok a' ∧ a'.Holds p (cstr l) := by
  obtain ⟨a', hs, hc⟩ := store_ok (l ++ ['\x00']) a (p := p)
    (by rw [List.length_append, List.length_singleton]; omega)
  obtain ⟨t, ht⟩ := cstr_append l
  refine ⟨a', hs, a.chars.take p, t ++ a.chars.drop (p + (l ++ ['\x00']).length), ?_, ?_,
    no_nul_cstr l⟩
  · rw [hc, ht, List.append_assoc]
    rfl
  · rw [List.length_take, a.size]
    omega

theorem strcpy_ok {s : List Char} (a : CArray n) {p : Nat} (h : p + s.length < n)
    (hn : '\x00' ∉ s) : ∃ a', a.strcpy p s = .ok a' ∧ a'.Holds p s := by
  obtain ⟨a', hs, hh⟩ := store_cstr s a h
  rw [cstr_of_no_nul hn] at hh
  exact ⟨a', hs, hh⟩

theorem strcpy_error {s : List Char} (a : CArray n) {p : Nat} (hp : p ≤ n)
    (h : n ≤ p + s.length) : a.strcpy p s = .error (.write n) := by
  apply store_error _ _ hp
  rw [List.length_append, List.length_singleton]
  omega

/-! ## tokens -/

section
variable {a : CArray n} {p : Nat} {s : List Char} {delim : Char}

theorem Holds.strtok_none (h : a.Holds p s) (hs : CString.strtok delim s = none) :
    ∃ saved, a.strtok delim p = .ok (a, none, saved) := by
  unfold CString.strtok at hs
  split at hs
  · rename_i hd
    refine ⟨p + (s.takeWhile (· = delim)).length, ?_⟩
    rw [strtok, h.str_eq]
    simp only [bind, Except.bind, hd]
    rfl
  · cases hs

/-- the token and the rest are strings of the array -/
theorem Holds.strtok_some {token rest : List Char} (h : a.Holds p s)
    (hs : CString.strtok delim s = some (token, rest)) :
    ∃ a' start saved, a.strtok delim p = .ok (a', some start, saved) ∧ a'.Holds start token ∧
      a'.Holds saved rest ∧ p ≤ start ∧ start + token.length ≤ saved := by
  unfold CString.strtok at hs
  split at hs
  · cases hs
  · rename_i c t hd
    simp only [Option.some.injEq, Prod.mk.injEq] at hs
    obtain ⟨htoken, hrest⟩ := hs
    -- the string behind the delimiters in front
    have hhere : a.Holds (p + (s.takeWhile (· = delim)).length) (c :: t) := by
      have hsplit : s = s.takeWhile (· = delim) ++ c :: t := by
        rw [← hd, List.takeWhile_append_dropWhile]
      rw [hsplit] at h
      exact h.drop
    generalize hstart : p + (s.takeWhile (· = delim)).length = start at hhere
    have hp : p ≤ start := hstart ▸ Nat.le_add_right _ _
    have hrun : a.strtok delim p
        = if start + token.length = start + (c :: t).length
          then .ok (a, some start, start + token.length)
          else (a.put (start + token.length) '\x00').map fun a' =>
            (a', some start, start + token.length + 1) := by
      rw [strtok, h.str_eq]
      simp only [bind, Except.bind, hd, hstart, htoken]
      split
      · rfl
      · cases a.put (start + token.length) '\x00' <;> rfl
    have hall : c :: t = token ++ (c :: t).dropWhile (· ≠ delim) := by
      rw [← htoken, List.takeWhile_append_dropWhile]
    cases hmore : (c :: t).dropWhile (· ≠ delim) with
    | nil =>
      -- the token goes to the end of the string
      rw [hmore, List.append_nil] at hall
      rw [hmore] at hrest
      refine ⟨a, start, start + token.length, ?_, ?_, ?_, hp, Nat.le_refl _⟩
      · rw [hrun, hall, if_pos rfl]
      · rw [← hall]
        exact hhere
      · rw [← hrest, ← hall]
        rw [← List.append_nil (c :: t)] at hhere
        exact hhere.drop
    | cons d more =>
      rw [hmore] at hall hrest
      rw [hall] at hhere
      obtain ⟨a', hput, htok, hsaved⟩ := hhere.put_nul
      refine ⟨a', start, start + token.length + 1, ?_, htok, ?_, hp, Nat.le_succ _⟩
      · rw [hrun, if_neg, hput]
        · rfl
        · rw [hall, List.length_append, List.length_cons]
          omega
      · rw [← hrest]
        exact hsaved

end

end CArray

end CString
