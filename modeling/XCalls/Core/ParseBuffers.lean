import XCalls.Lib.CArray
import XCalls.Core.ConfigFile

/-!
# The buffers of `parse`

`parse` and `strtrim_whitespace` of `config.c` once more, on the arrays that they write.

* `trimEnd`, `trimStart`   the two loops of `strtrim_whitespace`;
* `ParseBufs`       the buffers of `parse` and the two of its caller, whatever they hold;
* `parseArrays`     `parse`: a write behind the end of an array is a fault;
* `parseArrays_refines`   it does what `parse` of the strings says;
* `parse_line_exact`      what a line is parsed to;
* `parse_in_bounds_iff`   the writes stay inside the arrays where the parts of the line fit.
-/

namespace XCalls
open CString
variable {n : Nat}

/-! ## strtrim_whitespace -/

/-- the first loop, on `len = strlen(p)` -/
def trimEnd : Nat → CArray n → Nat → Nat → Except Fault (CArray n × Nat)
  | 0, _, _, _ => .error .outOfFuel
  | fuel + 1, a, p, len => do
    if (← a.get p) = '\x00' ∨ len = 0 then return (a, len)
    else
      let stop := p + len - 1
      if isBlank (← a.get stop) then
        let a ← a.put stop '\x00'
        trimEnd fuel a p (← a.strlen p)
      else return (a, len)

/-- the second loop -/
def trimStart : Nat → CArray n → Nat → Nat → Except Fault (CArray n × Nat)
  | 0, _, _, _ => .error .outOfFuel
  | fuel + 1, a, p, len => do
    let c ← a.get p
    if c = '\x00' ∨ len = 0 then return (a, p)
    else if isBlank c then
      let a ← a.put p '\x00'
      trimStart fuel a (p + 1) (← a.strlen (p + 1))
    else return (a, p)

/-- `strtrim_whitespace`: the array, and where the string starts now -/
def strtrimWhitespaceAt (fuel : Nat) (a : CArray n) (p : Nat) : Except Fault (CArray n × Nat) := do
  let (a, len) ← trimEnd fuel a p (← a.strlen p)
  trimStart fuel a p len

section
variable {a : CArray n} {p : Nat} {s : List Char} {fuel : Nat}

theorem get_of_ne_nil (h : a.Holds p s) (hne : s ≠ []) :
    ∃ c, a.get p = .ok c ∧ c ≠ '\x00' := by
  obtain ⟨c, t, rfl⟩ := List.exists_cons_of_ne_nil hne
  exact ⟨c, h.get_cons, fun he => h.no_nul (he ▸ List.mem_cons_self)⟩

theorem trimEnd_eq (h : a.Holds p s) (hf : s.length < fuel) :
    ∃ a', trimEnd fuel a p s.length = .ok (a', (s.rdropWhile isBlank).length) ∧
      a'.Holds p (s.rdropWhile isBlank) := by
  induction s using List.reverseRecOn generalizing a fuel with
  | nil =>
    obtain ⟨fuel, rfl⟩ := Nat.exists_eq_add_one_of_ne_zero (Nat.ne_of_gt hf)
    refine ⟨a, ?_, h⟩
    rw [trimEnd, h.get_nil]
    rfl
  | append_singleton s c ih =>
    obtain ⟨fuel, rfl⟩ := Nat.exists_eq_add_one_of_ne_zero (Nat.ne_of_gt (Nat.zero_lt_of_lt hf))
    obtain ⟨d, hd, hne⟩ := get_of_ne_nil h (by simp)
    have hlast : a.get (p + (s ++ [c]).length - 1) = .ok c := by
      rw [List.length_append, List.length_singleton, ← Nat.add_assoc, Nat.add_sub_cancel]
      exact h.drop.get_cons
    have hlen : (s ++ [c]).length ≠ 0 := by simp
    by_cases hb : isBlank c = true
    · -- the blank at the end is overwritten
      obtain ⟨a', hput, hs, _⟩ := h.put_nul
      have hf' : s.length < fuel := by
        rw [List.length_append, List.length_singleton] at hf
        omega
      obtain ⟨a'', hrun, hs'⟩ := ih hs hf'
      rw [List.rdropWhile_concat_pos _ _ _ hb]
      refine ⟨a'', ?_, hs'⟩
      have hstop : p + (s ++ [c]).length - 1 = p + s.length := by
        rw [List.length_append, List.length_singleton]
        omega
      rw [hstop] at hlast
      rw [trimEnd, hstop]
      simp only [hd, hlast, hput, hs.strlen_eq, hrun, bind, Except.bind, hne, hlen, hb, or_self,
        if_false, if_true]
    · rw [List.rdropWhile_concat_neg _ _ _ hb]
      refine ⟨a, ?_, h⟩
      rw [trimEnd]
      simp only [hd, hlast, bind, Except.bind, hne, hlen, hb, or_self, if_false]
      rfl

theorem trimStart_eq (h : a.Holds p s) (hf : s.length < fuel) :
    ∃ a' p', trimStart fuel a p s.length = .ok (a', p') ∧ a'.Holds p' (s.dropWhile isBlank) ∧
      p' ≤ p + s.length := by
  induction s generalizing a p fuel with
  | nil =>
    obtain ⟨fuel, rfl⟩ := Nat.exists_eq_add_one_of_ne_zero (Nat.ne_of_gt hf)
    refine ⟨a, p, ?_, h, Nat.le_refl _⟩
    rw [trimStart, h.get_nil]
    rfl
  | cons c s ih =>
    obtain ⟨fuel, rfl⟩ := Nat.exists_eq_add_one_of_ne_zero (Nat.ne_of_gt (Nat.zero_lt_of_lt hf))
    have hne : c ≠ '\x00' := fun he => h.no_nul (he ▸ List.mem_cons_self)
    have hlen : (c :: s).length ≠ 0 := Nat.succ_ne_zero _
    by_cases hb : isBlank c = true
    · obtain ⟨a', hput, _, hs⟩ := CArray.Holds.put_nul (u := []) h
      rw [List.length_nil, Nat.add_zero] at hput hs
      have hf' : s.length < fuel := Nat.lt_of_succ_lt_succ hf
      obtain ⟨a'', p', hrun, hs', hp⟩ := ih hs hf'
      rw [List.dropWhile_cons_of_pos hb]
      refine ⟨a'', p', ?_, hs', by rw [List.length_cons]; omega⟩
      rw [trimStart]
      simp only [h.get_cons, hput, hs.strlen_eq, hrun, bind, Except.bind, hne, hlen, hb, or_self,
        if_false, if_true]
    · rw [List.dropWhile_cons_of_neg hb]
      refine ⟨a, p, ?_, h, Nat.le_add_right _ _⟩
      rw [trimStart]
      simp only [h.get_cons, bind, Except.bind, hne, hlen, hb, or_self, if_false]
      rfl

theorem get_hash (h : a.Holds p s) : ∃ c, a.get p = .ok c ∧ (c = '#' ↔ s.head? = some '#') := by
  cases s with
  | nil => exact ⟨_, h.get_nil, by decide⟩
  | cons c t => exact ⟨c, h.get_cons, by rw [List.head?_cons, Option.some.injEq]⟩

/-- **Trimming** ends, and leaves the string without the blanks at its ends. -/
theorem strtrim_eq (h : a.Holds p s) (hf : s.length < fuel) :
    ∃ a' p', strtrimWhitespaceAt fuel a p = .ok (a', p') ∧ a'.Holds p' (strtrimWhitespace s) ∧
      p' ≤ p + s.length := by
  obtain ⟨a₁, h1, hs1⟩ := trimEnd_eq h hf
  have hle : (s.rdropWhile isBlank).length ≤ s.length := (List.rdropWhile_prefix _ _).length_le
  obtain ⟨a₂, p', h2, hs2, hp⟩ := trimStart_eq hs1 (Nat.lt_of_le_of_lt hle hf)
  refine ⟨a₂, p', ?_, hs2, Nat.le_trans hp (Nat.add_le_add_left hle p)⟩
  rw [strtrimWhitespaceAt, h.strlen_eq]
  simp only [bind, Except.bind, h1]
  exact h2

end

/-! ## parse -/

/-- `buf1`, `buf2` of `parse`, and `buf_option`, `buf_value` of `config_init_use_file` -/
structure ParseBufs where
  buf1 : CArray buf1Size
  buf2 : CArray buf1Size
  option : CArray bufOptionSize
  value : CArray bufOptionSize

/-- `parse_result_t` -/
inductive ParseCode where
  | pair
  | eof
  | error
  | comment
  deriving DecidableEq, Repr

/-- `parse` from its second `strtok` on, which goes on at `saved`; the option is at `trimmed` -/
def parseValue (fuel : Nat) (b : ParseBufs) (saved trimmed : Nat) :
    Except Fault (ParseCode × ParseBufs) := do
  let (buf1, subtoken, _) ← b.buf1.strtok '\n' saved
  match subtoken with
  | none => return (.error, { b with buf1 })
  | some subtoken =>
    let buf2 ← b.buf2.strcpy trimmed (← buf1.str subtoken)
    let (buf2, trimmed) ← strtrimWhitespaceAt fuel buf2 trimmed
    let value ← b.value.strcpy 0 (← buf2.str trimmed)
    return (.pair, { b with buf1, buf2, value })

/-- `parse` behind `fgets` -/
def parseOption (fuel : Nat) (b : ParseBufs) : Except Fault (ParseCode × ParseBufs) := do
  let (buf1, subtoken, saved) ← b.buf1.strtok '=' 0
  match subtoken with
  | none => return (.error, { b with buf1 })
  | some subtoken =>
    let buf2 ← b.buf2.strcpy 0 (← buf1.str subtoken)
    let (buf2, trimmed) ← strtrimWhitespaceAt fuel buf2 0
    if (← buf2.get trimmed) = '#' then return (.comment, { b with buf1, buf2 })
    else
      let option ← b.option.strcpy 0 (← buf2.str trimmed)
      parseValue fuel { b with buf1, buf2, option } saved trimmed

/-- `parse`: the code returned, the buffers, and the rest of the file -/
def parseArrays (fuel : Nat) (b : ParseBufs) (fin : List Char) :
    Except Fault (ParseCode × ParseBufs × List Char) :=
  match fgets buf1Size fin with
  | none => .ok (.eof, b, [])
  | some (line, fin) => do
    let buf1 ← b.buf1.store 0 (line ++ ['\x00'])
    let (code, b) ← parseOption fuel { b with buf1 }
    return (code, b, fin)

/-! ## the refinement -/

/-- every buffer holds a string, or what it held before -/
structure LeavesStrings (b b' : ParseBufs) : Prop where
  buf1 : b'.buf1.Terminated
  buf2 : b'.buf2 = b.buf2 ∨ b'.buf2.Terminated
  option : b'.option = b.option ∨ b'.option.Terminated
  value : b'.value = b.value ∨ b'.value.Terminated

def Parsed (b : ParseBufs) (r : Except Fault (ParseCode × ParseBufs)) : Option ParseResult → Prop
  | none => r = .error (.write bufOptionSize)
  | some (.pair option value) => ∃ b', r = .ok (.pair, b') ∧ LeavesStrings b b' ∧
      b'.option.Holds 0 option ∧ b'.value.Holds 0 value
  | some .error => ∃ b', r = .ok (.error, b') ∧ LeavesStrings b b'
  | some .comment => ∃ b', r = .ok (.comment, b') ∧ LeavesStrings b b' ∧
      b'.option = b.option ∧ b'.value = b.value
  | some .eof => False

section
variable {b : ParseBufs} {fuel saved trimmed : Nat} {s : List Char}

theorem Parsed.of_buf1 {buf1 : CArray buf1Size} {r : Except Fault (ParseCode × ParseBufs)}
    {x : Option ParseResult} (h : Parsed { b with buf1 } r x) : Parsed b r x := by
  cases x with
  | none => exact h
  | some x =>
    cases x with
    | pair o v =>
      obtain ⟨b', hr, hl, ho, hv⟩ := h
      exact ⟨b', hr, ⟨hl.buf1, hl.buf2, hl.option, hl.value⟩, ho, hv⟩
    | eof => exact h
    | error =>
      obtain ⟨b', hr, hl⟩ := h
      exact ⟨b', hr, ⟨hl.buf1, hl.buf2, hl.option, hl.value⟩⟩
    | comment =>
      obtain ⟨b', hr, hl, ho, hv⟩ := h
      exact ⟨b', hr, ⟨hl.buf1, hl.buf2, hl.option, hl.value⟩, ho, hv⟩

def parseBufValue (option s : List Char) : Option ParseResult :=
  match strtok '\n' s with
  | none => some .error
  | some (subtoken, _) =>
    let value := strtrimWhitespace subtoken
    if bufOptionSize ≤ value.length then none else some (.pair option value)

theorem Parsed.returns {r : Except Fault (ParseCode × ParseBufs)} {x : ParseResult}
    (h : Parsed b r (some x)) : ∃ code b', r = .ok (code, b') ∧ LeavesStrings b b' := by
  cases x with
  | pair o v =>
    obtain ⟨b', hr, hl, _⟩ := h
    exact ⟨_, b', hr, hl⟩
  | eof => exact h.elim
  | error =>
    obtain ⟨b', hr, hl⟩ := h
    exact ⟨_, b', hr, hl⟩
  | comment =>
    obtain ⟨b', hr, hl, _⟩ := h
    exact ⟨_, b', hr, hl⟩

theorem parseValue_refines {o : List Char} (hfuel : buf1Size ≤ fuel) (hs : b.buf1.Holds saved s)
    (ho : b.option.Holds 0 o) (hb2 : b.buf2.Terminated) (htrim : trimmed ≤ saved) (b₀ : ParseBufs)
    (hb₀ : b.value = b₀.value) :
    Parsed b₀ (parseValue fuel b saved trimmed) (parseBufValue o s) := by
  unfold parseBufValue
  cases htok : strtok '\n' s with
  | none =>
    obtain ⟨saved', hrun⟩ := hs.strtok_none htok
    refine ⟨b, ?_, hs.terminated, .inr hb2, .inr ho.terminated, .inl hb₀⟩
    rw [parseValue, hrun]
    rfl
  | some r =>
    obtain ⟨token, rest⟩ := r
    obtain ⟨buf1, start, saved', hrun, htoken, _, hstart, _⟩ := hs.strtok_some htok
    have hlt := htoken.lt
    -- the copy starts at the trimmed option, which does not lie behind the token
    obtain ⟨buf2, hcopy, hheld⟩ := b.buf2.strcpy_ok (p := trimmed) (s := token) (by omega)
      htoken.no_nul
    have hf : token.length < fuel := by omega
    obtain ⟨buf2', trimmed', htrimmed, hvalue, _⟩ := strtrim_eq hheld hf
    have hpre : parseValue fuel b saved trimmed = (b.value.strcpy 0 (strtrimWhitespace token)).map
        fun value => (.pair, { b with buf1, buf2 := buf2', value }) := by
      rw [parseValue, hrun]
      simp only [bind, Except.bind, htoken.str_eq, hcopy, htrimmed, hvalue.str_eq]
      cases b.value.strcpy 0 (strtrimWhitespace token) <;> rfl
    rw [hpre]
    by_cases hlen : bufOptionSize ≤ (strtrimWhitespace token).length
    · rw [CArray.strcpy_error _ (Nat.zero_le _) (by rw [Nat.zero_add]; exact hlen)]
      simp only [if_pos hlen]
      rfl
    · obtain ⟨value, hcopied, hval⟩ := b.value.strcpy_ok (p := 0) (s := strtrimWhitespace token)
        (by omega) hvalue.no_nul
      rw [hcopied]
      simp only [if_neg hlen]
      exact ⟨_, rfl, ⟨htoken.terminated, .inr hvalue.terminated, .inr ho.terminated,
        .inr hval.terminated⟩, ho, hval⟩

theorem parseBuf_cstr (line : List Char) : parseBuf (cstr line) = parseBuf line := by
  unfold parseBuf
  rw [cstr_of_no_nul (no_nul_cstr line)]

theorem parseOption_refines (hfuel : buf1Size ≤ fuel) (hs : b.buf1.Holds 0 s) (hn : '\x00' ∉ s) :
    Parsed b (parseOption fuel b) (parseBuf s) := by
  unfold parseBuf
  rw [cstr_of_no_nul hn]
  cases htok : strtok '=' s with
  | none =>
    obtain ⟨saved, hrun⟩ := hs.strtok_none htok
    refine ⟨b, ?_, hs.terminated, .inl rfl, .inl rfl, .inl rfl⟩
    rw [parseOption, hrun]
    rfl
  | some r =>
    obtain ⟨token, rest⟩ := r
    obtain ⟨buf1, start, saved, hrun, htoken, hrest, _, hle⟩ := hs.strtok_some htok
    have hlt := htoken.lt
    obtain ⟨buf2, hcopy, hheld⟩ := b.buf2.strcpy_ok (p := 0) (s := token) (by omega) htoken.no_nul
    have hf : token.length < fuel := by omega
    obtain ⟨buf2', trimmed, htrimmed, hoption, hoff⟩ := strtrim_eq hheld hf
    dsimp only
    generalize strtrimWhitespace token = o at hoption ⊢
    obtain ⟨c, hget, hhash⟩ := get_hash hoption
    have hpre : parseOption fuel b = if c = '#' then .ok (.comment, { b with buf1, buf2 := buf2' })
        else (b.option.strcpy 0 o).bind fun option =>
          parseValue fuel { b with buf1, buf2 := buf2', option } saved trimmed := by
      rw [parseOption, hrun]
      simp only [bind, Except.bind, htoken.str_eq, hcopy, htrimmed, hget, hoption.str_eq]
      rfl
    rw [hpre]
    by_cases hc : c = '#'
    · rw [if_pos hc, if_pos (hhash.mp hc)]
      exact ⟨_, rfl, ⟨htoken.terminated, .inr hoption.terminated, .inl rfl, .inl rfl⟩, rfl, rfl⟩
    · rw [if_neg hc, if_neg fun hh => hc (hhash.mpr hh)]
      by_cases hlen : bufOptionSize ≤ o.length
      · rw [CArray.strcpy_error _ (Nat.zero_le _) (by rw [Nat.zero_add]; exact hlen), if_pos hlen]
        rfl
      · obtain ⟨option, hcopied, hopt⟩ := b.option.strcpy_ok (p := 0) (s := o) (by omega)
          hoption.no_nul
        rw [hcopied, if_neg hlen]
        exact parseValue_refines hfuel hrest hopt hoption.terminated (by omega) b rfl

/-- **`parse` on arrays** does what `parse` of the strings says. -/
theorem parseArrays_refines {fin line rest : List Char} (b : ParseBufs) (hfuel : buf1Size ≤ fuel)
    (hline : fgets buf1Size fin = some (line, rest)) :
    ∃ r, parseArrays fuel b fin = r.map (fun x => (x.1, x.2, rest)) ∧ Parsed b r (parseBuf line) := by
  have hlen : line.length ≤ 1023 := fgets_length hline
  obtain ⟨buf1, hstore, hheld⟩ := CArray.store_cstr line b.buf1 (p := 0)
    (by rw [Nat.zero_add]; exact Nat.lt_succ_of_le hlen)
  have href := parseOption_refines (b := { b with buf1 }) hfuel hheld (no_nul_cstr line)
  rw [parseBuf_cstr] at href
  refine ⟨parseOption fuel { b with buf1 }, ?_, ?_⟩
  · unfold parseArrays
    rw [hline]
    simp only [bind, Except.bind, hstore]
    cases parseOption fuel { b with buf1 } <;> rfl
  · exact href.of_buf1

end

theorem parseArrays_of_none {fuel : Nat} {fin line rest : List Char} (b : ParseBufs)
    (hfuel : buf1Size ≤ fuel) (hline : fgets buf1Size fin = some (line, rest))
    (hnone : parseBuf line = none) : parseArrays fuel b fin = .error (.write bufOptionSize) := by
  obtain ⟨r, hrun, hparsed⟩ := parseArrays_refines b hfuel hline
  rw [hnone] at hparsed
  rw [hrun, show r = _ from hparsed]
  rfl

/-! ## one line -/

/-- a line with an option and a value: `x` in front of the first sign, `y` behind it up to the
newline -/
structure OptionLine (line x y : List Char) : Prop where
  split : ∃ e, (e = [] ∨ e = ['\n']) ∧ line = x ++ '=' :: (y ++ e)
  no_nul : '\x00' ∉ line
  sign : '=' ∉ x
  front : x ≠ []
  newline : '\n' ∉ y
  back : y ≠ []
  hash : (strtrimWhitespace x).head? ≠ some '#'
  option_le : (strtrimWhitespace x).length ≤ 127
  value_le : (strtrimWhitespace y).length ≤ 127

theorem OptionLine.parseBuf_eq {line x y : List Char} (h : OptionLine line x y) :
    parseBuf line = some (.pair (strtrimWhitespace x) (strtrimWhitespace y)) := by
  obtain ⟨e, he, hl⟩ := h.split
  have hn := h.no_nul
  have ho := h.option_le
  have hv := h.value_le
  rw [hl] at hn ⊢
  rw [parseBuf_pair hn h.sign h.front h.newline h.back he h.hash, if_neg, if_neg]
  · exact Nat.not_le.mpr (Nat.lt_succ_of_le hv)
  · exact Nat.not_le.mpr (Nat.lt_succ_of_le ho)

/-- a line whose first character that is no blank is a `#` is a comment, NULs or not -/
theorem parseBuf_of_hash {line : List Char} (h : (line.dropWhile isBlank).head? = some '#') :
    parseBuf line = some .comment := by
  have hc : ((cstr line).dropWhile isBlank).head? = some '#' :=
    (hash_takeWhile (by decide) (by decide) line).mpr h
  rw [← parseBuf_cstr]
  apply parseBuf_of_hashLed (no_nul_cstr line)
  rw [HashLed, dropWhile_eq_of_head]
  · exact hc
  · -- a sign in front is neither a blank nor a `#`
    intro hs
    cases hl : cstr line with
    | nil =>
      rw [hl] at hc
      cases hc
    | cons c t =>
      rw [hl, List.head?_cons, Option.some.injEq] at hs
      rw [hl, hs, List.dropWhile_cons_of_neg (by decide), List.head?_cons] at hc
      exact absurd hc (by decide)

/-- nothing but the blanks at both ends is taken away -/
theorem strtrim_spec (s : List Char) :
    ∃ l r, s = l ++ strtrimWhitespace s ++ r ∧ Blanks l ∧ Blanks r ∧ Trimmed (strtrimWhitespace s) := by
  refine ⟨(s.rdropWhile isBlank).takeWhile isBlank, s.rtakeWhile isBlank, ?_, ?_, ?_, ?_, ?_⟩
  · rw [strtrimWhitespace, List.takeWhile_append_dropWhile, List.rdropWhile_append_rtakeWhile]
  · exact fun c hc => List.mem_takeWhile_imp hc
  · exact fun c hc => List.mem_rtakeWhile_imp hc
  · intro c hc
    have hhead := List.head?_dropWhile_not isBlank (s.rdropWhile isBlank)
    rw [← strtrimWhitespace, hc] at hhead
    exact hhead
  · -- the last character is that of the string without the blanks behind it
    intro c hc
    have hsuffix : strtrimWhitespace s <:+ s.rdropWhile isBlank := List.dropWhile_suffix _
    obtain ⟨l, hl⟩ := hsuffix
    have hne : strtrimWhitespace s ≠ [] := fun he => by rw [he] at hc; cases hc
    have hne' : s.rdropWhile isBlank ≠ [] := by
      rw [← hl]
      exact List.append_ne_nil_of_right_ne_nil l hne
    have hlast := List.rdropWhile_last_not isBlank s hne'
    have hget : (s.rdropWhile isBlank).getLast? = some c := by
      rw [← hl, List.getLast?_append_of_ne_nil _ hne]
      exact hc
    rw [List.getLast?_eq_some_getLast hne', Option.some.injEq] at hget
    rw [hget] at hlast
    exact Bool.eq_false_iff.mpr hlast

/-- **One line.**  A line is what `fgets` delivers, and the buffers hold anything at the start: a
line with an option and a value is parsed to these two, trimmed; a line that starts with a `#`
behind blanks is a comment and leaves the caller's buffers alone; and trimming ends on every string,
with the string without the blanks at its ends. -/
theorem parse_line_exact :
    (∀ fuel ≥ buf1Size, ∀ (b : ParseBufs) (fin line rest : List Char),
      fgets buf1Size fin = some (line, rest) →
      (∀ x y, OptionLine line x y → ∃ b', parseArrays fuel b fin = .ok (.pair, b', rest) ∧
        b'.option.Holds 0 (strtrimWhitespace x) ∧ b'.value.Holds 0 (strtrimWhitespace y)) ∧
      ((line.dropWhile isBlank).head? = some '#' →
        ∃ b', parseArrays fuel b fin = .ok (.comment, b', rest) ∧
          b'.option = b.option ∧ b'.value = b.value)) ∧
    ∀ (n : Nat) (a : CArray n) (p : Nat) (s : List Char), a.Holds p s → ∀ fuel > s.length,
      ∃ a' p' l w r, strtrimWhitespaceAt fuel a p = .ok (a', p') ∧ a'.Holds p' w ∧
        w = strtrimWhitespace s ∧ s = l ++ w ++ r ∧ Blanks l ∧ Blanks r ∧ Trimmed w := by
  refine ⟨fun fuel hfuel b fin line rest hline => ?_, fun n a p s hs fuel hf => ?_⟩
  · obtain ⟨r, hrun, hparsed⟩ := parseArrays_refines b hfuel hline
    constructor
    · intro x y hpair
      rw [hpair.parseBuf_eq] at hparsed
      obtain ⟨b', rfl, _, hoption, hvalue⟩ := hparsed
      exact ⟨b', hrun, hoption, hvalue⟩
    · intro hhash
      rw [parseBuf_of_hash hhash] at hparsed
      obtain ⟨b', rfl, _, hoption, hvalue⟩ := hparsed
      exact ⟨b', hrun, hoption, hvalue⟩
  · obtain ⟨a', p', hrun, hheld, _⟩ := strtrim_eq hs hf
    obtain ⟨l, r, hsplit, hl, hr, ht⟩ := strtrim_spec s
    exact ⟨a', p', l, _, r, hrun, hheld, rfl, hsplit, hl, hr, ht⟩

def nulArray (n : Nat) : CArray n := ⟨List.replicate n '\x00', List.length_replicate⟩

def nulBufs : ParseBufs := ⟨nulArray _, nulArray _, nulArray _, nulArray _⟩

/-- blanks at all places, and a second sign in the value -/
theorem parse_line_exact_blanks :
    ∃ b', parseArrays buf1Size nulBufs "\ta b = x = y \n".toList = .ok (.pair, b', []) ∧
      b'.option.Holds 0 "a b".toList ∧ b'.value.Holds 0 "x = y".toList :=
  ((parse_line_exact.1 buf1Size (Nat.le_refl _) nulBufs "\ta b = x = y \n".toList
      "\ta b = x = y \n".toList [] (by decide)).1 "\ta b ".toList " x = y ".toList
    ⟨⟨['\n'], .inr rfl, rfl⟩, by decide, by decide, by decide, by decide, by decide, by decide,
      by decide, by decide⟩)

/-! ## the bounds -/

/-- `parse` copies nothing that is longer than its target: there is no token in front of a sign, or
it is a comment, or its trimmed text fits, and so does the trimmed text up to the newline, if there
is one -/
def Fits (line : List Char) : Prop :=
  match strtok '=' (cstr line) with
  | none => True
  | some (subtoken, saved) =>
    (strtrimWhitespace subtoken).head? = some '#' ∨
      (strtrimWhitespace subtoken).length < bufOptionSize ∧
        match strtok '\n' saved with
        | none => True
        | some (subtoken, _) => (strtrimWhitespace subtoken).length < bufOptionSize

theorem fits_iff (line : List Char) : Fits line ↔ parseBuf line ≠ none := by
  unfold Fits parseBuf
  cases strtok '=' (cstr line) with
  | none => exact iff_of_true trivial (Option.some_ne_none _)
  | some r =>
    obtain ⟨token, saved⟩ := r
    dsimp only
    by_cases hh : (strtrimWhitespace token).head? = some '#'
    · rw [if_pos hh]
      exact iff_of_true (.inl hh) (Option.some_ne_none _)
    · rw [if_neg hh]
      by_cases hlen : bufOptionSize ≤ (strtrimWhitespace token).length
      · rw [if_pos hlen]
        exact iff_of_false (fun h => h.elim hh fun h => absurd hlen (Nat.not_le.mpr h.1))
          fun h => h rfl
      · rw [if_neg hlen]
        cases strtok '\n' saved with
        | none => exact iff_of_true (.inr ⟨Nat.not_le.mp hlen, trivial⟩) (Option.some_ne_none _)
        | some r' =>
          obtain ⟨token', rest⟩ := r'
          dsimp only
          by_cases hlen' : bufOptionSize ≤ (strtrimWhitespace token').length
          · rw [if_pos hlen']
            exact iff_of_false (fun h => h.elim hh fun h => absurd hlen' (Nat.not_le.mpr h.2))
              fun h => h rfl
          · rw [if_neg hlen']
            exact iff_of_true (.inr ⟨Nat.not_le.mp hlen, Nat.not_le.mp hlen'⟩)
              (Option.some_ne_none _)

instance decLineFits (line : List Char) : Decidable (Fits line) := decidable_of_iff _ (fits_iff line).symm

/-- **Inside the buffers.**  Whatever line `fgets` delivers, and whatever the buffers held: `parse`
returns without a write behind an array, and every array holds a string or is unchanged, exactly
when the parts of the line fit; else it writes behind `option` or `value`. -/
theorem parse_in_bounds_iff {fuel : Nat} (hfuel : buf1Size ≤ fuel) (b : ParseBufs)
    {fin line rest : List Char} (hline : fgets buf1Size fin = some (line, rest)) :
    ((∃ code b', parseArrays fuel b fin = .ok (code, b', rest) ∧ LeavesStrings b b') ↔ Fits line) ∧
      (¬ Fits line → parseArrays fuel b fin = .error (.write bufOptionSize)) := by
  rw [fits_iff]
  cases hp : parseBuf line with
  | none =>
    rw [parseArrays_of_none b hfuel hline hp]
    exact ⟨iff_of_false (fun ⟨_, _, h, _⟩ => nomatch h) fun h => h rfl, fun _ => rfl⟩
  | some x =>
    obtain ⟨r, hrun, hparsed⟩ := parseArrays_refines b hfuel hline
    rw [hp] at hparsed
    obtain ⟨code, b', rfl, hleaves⟩ := hparsed.returns
    exact ⟨iff_of_true ⟨code, b', hrun, hleaves⟩ (Option.some_ne_none x),
      fun h => absurd (Option.some_ne_none x) h⟩

theorem parse_in_bounds_iff_pair :
    ∃ code b', parseArrays buf1Size nulBufs "a=1\n".toList = .ok (code, b', []) ∧
      LeavesStrings nulBufs b' := by
  have hline : fgets buf1Size "a=1\n".toList = some ("a=1\n".toList, []) := by decide
  exact (parse_in_bounds_iff (Nat.le_refl _) nulBufs hline).1.mpr (by decide)

/-- a line with an option of 128 characters -/
def longLine : List Char := List.replicate 128 'a' ++ ['=', '1', '\n']

theorem fgets_longLine : fgets buf1Size longLine = some (longLine, []) := by decide +kernel

theorem parseBuf_longLine : parseBuf longLine = none := by decide +kernel

/-- the NUL behind the option is written behind `buf_option` -/
theorem parse_overruns_option :
    fgets buf1Size longLine = some (longLine, []) ∧
      parseArrays buf1Size nulBufs longLine = .error (.write 128) :=
  ⟨fgets_longLine, parseArrays_of_none nulBufs (Nat.le_refl buf1Size) fgets_longLine
    parseBuf_longLine⟩

end XCalls
