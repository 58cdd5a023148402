import Mathlib

/-!
# C strings and text files

A string is the list of its characters without the terminating NUL; a file that is read is the
list of the characters still to come.

* `cstr`     a buffer as a string: up to the first NUL;
* `strtok`   the token and where the next call goes on, `none` for `NULL`;
* `fgets`    the characters read and the rest of the file, `none` at its end;
* `atoi`     `(int) strtol(s, NULL, 10)`, for a `long` of any width.

`Reads.newline`, `Reads.last`: `fgets` reads a line in one piece if it fits into the buffer, and
cut at the size of the buffer otherwise.
-/

namespace CString

/-! ## the functions -/

def cstr (buf : List Char) : List Char := buf.takeWhile (· ≠ '\x00')

def strtok (delim : Char) (s : List Char) : Option (List Char × List Char) :=
  match s.dropWhile (· = delim) with
  | [] => none
  | c :: t => some ((c :: t).takeWhile (· ≠ delim), ((c :: t).dropWhile (· ≠ delim)).tail)

/-- at most `size - 1` characters, and none behind a newline -/
def fgets (size : Nat) : List Char → Option (List Char × List Char)
  | [] => none
  | c :: t =>
    let n := min (size - 1) (((c :: t).takeWhile (· ≠ '\n')).length + 1)
    some ((c :: t).take n, (c :: t).drop n)

def isspace (c : Char) : Bool :=
  c = ' ' || c = '\t' || c = '\n' || c = '\x0b' || c = '\x0c' || c = '\r'

def decimal (s : List Char) : Int :=
  (s.takeWhile Char.isDigit).foldl (fun a c => 10 * a + (c.toNat - '0'.toNat)) 0

/-- `strtol` in base ten: the value is kept within a `long` of `w` bits -/
def strtol (w : Nat) (s : List Char) : Int :=
  let v := match s.dropWhile isspace with
    | '-' :: t => - decimal t
    | '+' :: t => decimal t
    | t => decimal t
  max (-2 ^ (w - 1)) (min (2 ^ (w - 1) - 1) v)

def atoi (w : Nat) (s : List Char) : Int32 := Int32.ofInt (strtol w s)

/-! ## tokens -/

theorem all_ne {c : Char} {s : List Char} (h : c ∉ s) : ∀ x ∈ s, decide (x ≠ c) = true := by
  intro x hx
  exact decide_eq_true fun he => h (he ▸ hx)

theorem cstr_of_no_nul {s : List Char} (h : '\x00' ∉ s) : cstr s = s := by
  unfold cstr
  rw [List.takeWhile_eq_self_iff]
  exact all_ne h

theorem no_nul_cstr (s : List Char) : '\x00' ∉ cstr s :=
  fun h => absurd (List.mem_takeWhile_imp h) (by decide)

theorem cstr_append (buf : List Char) : ∃ t, buf ++ ['\x00'] = cstr buf ++ '\x00' :: t := by
  induction buf with
  | nil => exact ⟨[], rfl⟩
  | cons c buf ih =>
    by_cases hc : c = '\x00'
    · subst hc
      exact ⟨buf ++ ['\x00'], rfl⟩
    · obtain ⟨t, ht⟩ := ih
      have hcons : cstr (c :: buf) = c :: cstr buf := List.takeWhile_cons_of_pos (decide_eq_true hc)
      exact ⟨t, by rw [hcons, List.cons_append, ht, List.cons_append]⟩

section
variable {delim : Char}

theorem strtok_nil : strtok delim [] = none := rfl

theorem strtok_ne {c : Char} (h : c ≠ delim) (t : List Char) :
    strtok delim (c :: t)
      = some ((c :: t).takeWhile (· ≠ delim), ((c :: t).dropWhile (· ≠ delim)).tail) := by
  unfold strtok
  simp [h]

theorem strtok_all {s : List Char} (hne : s ≠ []) (h : delim ∉ s) :
    strtok delim s = some (s, []) := by
  obtain ⟨c, t, rfl⟩ := List.exists_cons_of_ne_nil hne
  have hc : c ≠ delim := fun he => h (he ▸ List.mem_cons_self)
  rw [strtok_ne hc, List.takeWhile_eq_self_iff.mpr (all_ne h),
    List.dropWhile_eq_nil_iff.mpr (all_ne h)]
  rfl

theorem strtok_append {s t : List Char} (hne : s ≠ []) (h : delim ∉ s) :
    strtok delim (s ++ delim :: t) = some (s, t) := by
  obtain ⟨c, s, rfl⟩ := List.exists_cons_of_ne_nil hne
  have hc : c ≠ delim := fun he => h (he ▸ List.mem_cons_self)
  rw [List.cons_append, strtok_ne hc, ← List.cons_append, List.takeWhile_append_of_pos (all_ne h),
    List.dropWhile_append_of_pos (all_ne h)]
  simp

end

/-! ## lines -/

theorem fgets_of_ne_nil {f : List Char} (h : f ≠ []) (size : Nat) :
    fgets size f = some (f.take (min (size - 1) ((f.takeWhile (· ≠ '\n')).length + 1)),
      f.drop (min (size - 1) ((f.takeWhile (· ≠ '\n')).length + 1))) := by
  obtain ⟨c, t, rfl⟩ := List.exists_cons_of_ne_nil h
  rfl

theorem fgets_length {size : Nat} {f buf rest : List Char} (h : fgets size f = some (buf, rest)) :
    buf.length ≤ size - 1 := by
  cases f with
  | nil => cases h
  | cons c t =>
    rw [fgets_of_ne_nil (List.cons_ne_nil c t)] at h
    simp only [Option.some.injEq, Prod.mk.injEq] at h
    rw [← h.1, List.length_take]
    omega

theorem fgets_newline {body : List Char} (h : '\n' ∉ body) (size : Nat) (rest : List Char) :
    fgets size (body ++ '\n' :: rest)
      = some ((body ++ ['\n']).take (size - 1), (body ++ ['\n']).drop (size - 1) ++ rest) := by
  have hlen : ((body ++ '\n' :: rest).takeWhile (· ≠ '\n')).length + 1 = (body ++ ['\n']).length := by
    rw [List.takeWhile_append_of_pos (all_ne h)]
    simp
  have happ : body ++ '\n' :: rest = body ++ ['\n'] ++ rest := by simp
  rw [fgets_of_ne_nil (by simp), hlen, happ]
  generalize hl : body ++ ['\n'] = l
  have hle : min (size - 1) l.length ≤ l.length := Nat.min_le_right _ _
  rw [List.take_append_of_le_length hle, List.drop_append_of_le_length hle]
  rcases Nat.le_total (size - 1) l.length with hs | hs
  · rw [Nat.min_eq_left hs]
  · rw [Nat.min_eq_right hs, List.take_of_length_le hs, List.drop_of_length_le hs,
      List.take_length, List.drop_length]

theorem fgets_last {body : List Char} (hne : body ≠ []) (h : '\n' ∉ body) (size : Nat) :
    fgets size body = some (body.take (size - 1), body.drop (size - 1)) := by
  rw [fgets_of_ne_nil hne, List.takeWhile_eq_self_iff.mpr (all_ne h)]
  rcases Nat.le_total (size - 1) body.length with hs | hs
  · rw [Nat.min_eq_left (Nat.le_succ_of_le hs)]
  · have hle : body.length ≤ min (size - 1) (body.length + 1) := by omega
    rw [List.take_of_length_le hs, List.drop_of_length_le hs, List.take_of_length_le hle,
      List.drop_of_length_le hle]

/-- `l` cut behind every `n + 1` characters -/
def cuts (n : Nat) : List Char → List (List Char)
  | [] => []
  | c :: t => (c :: t).take (n + 1) :: cuts n (t.drop n)
termination_by l => l.length
decreasing_by
  rw [List.length_drop, List.length_cons]
  omega

theorem cuts_nil (n : Nat) : cuts n [] = [] := by
  rw [cuts]

theorem cuts_of_ne_nil {n : Nat} {l : List Char} (h : l ≠ []) :
    cuts n l = l.take (n + 1) :: cuts n (l.drop (n + 1)) := by
  obtain ⟨c, t, rfl⟩ := List.exists_cons_of_ne_nil h
  rw [cuts, List.drop_succ_cons]

theorem cuts_of_le {n : Nat} {l : List Char} (h : l ≠ []) (hl : l.length ≤ n + 1) :
    cuts n l = [l] := by
  rw [cuts_of_ne_nil h, List.take_of_length_le hl, List.drop_of_length_le hl, cuts_nil]

/-- the buffers that `fgets` fills up to the end of the file -/
inductive Reads (size : Nat) : List Char → List (List Char) → Prop
  | eof : Reads size [] []
  | next {f buf rest : List Char} {bufs : List (List Char)} (h : fgets size f = some (buf, rest))
      (hr : Reads size rest bufs) : Reads size f (buf :: bufs)

theorem Reads.newline {n : Nat} {rest : List Char} {bufs : List (List Char)}
    (hr : Reads (n + 2) rest bufs) (k : Nat) :
    ∀ body : List Char, body.length ≤ k → '\n' ∉ body →
      Reads (n + 2) (body ++ '\n' :: rest) (cuts n (body ++ ['\n']) ++ bufs) := by
  -- on the length of the line: what `fgets` leaves of it is a shorter line, or nothing
  induction k with
  | zero =>
    intro body hk h
    have hb : body = [] := List.length_eq_zero_iff.mp (Nat.le_zero.mp hk)
    subst hb
    rw [cuts_of_ne_nil (by simp)]
    refine .next (fgets_newline h _ _) ?_
    rw [show n + 2 - 1 = n + 1 from rfl, List.drop_of_length_le (by simp), cuts_nil]
    exact hr
  | succ k ih =>
    intro body hk h
    rw [cuts_of_ne_nil (by simp)]
    refine .next (fgets_newline h _ _) ?_
    by_cases hle : body.length < n + 1
    · have hd : (body ++ ['\n']).drop (n + 1) = [] := by
        rw [List.drop_of_length_le]
        simp
        omega
      rw [show n + 2 - 1 = n + 1 from rfl, hd, cuts_nil]
      exact hr
    · have hd : (body ++ ['\n']).drop (n + 1) = body.drop (n + 1) ++ ['\n'] :=
        List.drop_append_of_le_length (by omega)
      rw [show n + 2 - 1 = n + 1 from rfl, hd, List.append_assoc]
      refine ih _ ?_ fun hm => h (List.mem_of_mem_drop hm)
      rw [List.length_drop]
      omega

theorem Reads.last {n : Nat} (k : Nat) :
    ∀ body : List Char, body.length ≤ k → '\n' ∉ body → Reads (n + 2) body (cuts n body) := by
  induction k with
  | zero =>
    intro body hk _
    have hb : body = [] := List.length_eq_zero_iff.mp (Nat.le_zero.mp hk)
    subst hb
    rw [cuts_nil]
    exact .eof
  | succ k ih =>
    intro body hk h
    by_cases hne : body = []
    · subst hne
      rw [cuts_nil]
      exact .eof
    · rw [cuts_of_ne_nil hne]
      refine .next (fgets_last hne h _) (ih _ ?_ fun hm => h (List.mem_of_mem_drop hm))
      rw [show n + 2 - 1 = n + 1 from rfl, List.length_drop]
      omega

theorem fgets_rest {n : Nat} {f buf rest : List Char} (h : fgets (n + 2) f = some (buf, rest)) :
    rest.length < f.length := by
  cases f with
  | nil => cases h
  | cons c t =>
    unfold fgets at h
    simp only [Option.some.injEq, Prod.mk.injEq] at h
    rw [← h.2, List.length_drop, List.length_cons]
    omega

theorem Reads.length_le {n : Nat} {f : List Char} {bufs : List (List Char)}
    (h : Reads (n + 2) f bufs) : bufs.length ≤ f.length := by
  induction h with
  | eof => exact Nat.le_refl _
  | next h _ ih =>
    have := fgets_rest h
    rw [List.length_cons]
    omega

end CString
