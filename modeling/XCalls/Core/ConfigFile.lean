import XCalls.Core.Config

/-!
# Configuration files

A file of the intended form: blank lines, comment lines and lines `name = value`, in any order.

* `ConfigLine`, `ConfigFile`   the lines, the last of them perhaps without a newline;
* `ConfigFile.text`, `ConfigFile.pairs`   what `fgets` reads, and what it is meant to say;
* `ConfigFile.Readable`        no blank line; a line with a pair fits into `buf1`; and every piece
                               of a longer comment line starts like a comment.

`config_file_read`: the pairs of the file are applied, and nothing else, exactly if the file is
readable.  `parse` has no case for a blank line (`blank_line_exits`), and takes what is left of a
line that is longer than `buf1` for a line of its own.
-/

set_option linter.unusedSectionVars false

namespace XCalls
open CString

/-! ## trimming -/

def Blanks (l : List Char) : Prop := ∀ c ∈ l, isBlank c = true

/-- no blank at either end -/
def Trimmed (l : List Char) : Prop :=
  (∀ c ∈ l.head?, isBlank c = false) ∧ ∀ c ∈ l.getLast?, isBlank c = false

def Plain (l : List Char) : Prop := '\n' ∉ l ∧ '\x00' ∉ l

theorem Blanks.not_mem {l : List Char} (h : Blanks l) {c : Char} (hc : isBlank c = false) :
    c ∉ l := by
  intro hm
  rw [h c hm] at hc
  cases hc

theorem Blanks.plain {l : List Char} (h : Blanks l) : Plain l :=
  ⟨h.not_mem (by decide), h.not_mem (by decide)⟩

theorem blanks_space : Blanks [' '] := by
  intro c hc
  rw [List.mem_singleton.mp hc]
  decide

theorem trimmed_of_ends {l : List Char} {c d : Char} (hc : l.head? = some c)
    (hd : l.getLast? = some d) (hcb : isBlank c = false) (hdb : isBlank d = false) : Trimmed l := by
  refine ⟨?_, ?_⟩
  · intro x hx
    rwa [← Option.some.inj (hc.symm.trans hx)]
  · intro x hx
    rwa [← Option.some.inj (hd.symm.trans hx)]

/-- the blanks in front, and then what is left after trimming with the blanks behind it -/
theorem dropWhile_strtrim (l : List Char) :
    (strtrimWhitespace l = [] ∧ l.dropWhile isBlank = []) ∨
      ∃ t, l.dropWhile isBlank = strtrimWhitespace l ++ t ∧ strtrimWhitespace l ≠ [] := by
  have hl : l.rdropWhile isBlank ++ l.rtakeWhile isBlank = l :=
    List.rdropWhile_append_rtakeWhile
  have hb : (l.rtakeWhile isBlank).dropWhile isBlank = [] := by
    rw [List.dropWhile_eq_nil_iff]
    exact fun c hc => List.mem_rtakeWhile_imp hc
  have hd : l.dropWhile isBlank
      = (l.rdropWhile isBlank ++ l.rtakeWhile isBlank).dropWhile isBlank := by rw [hl]
  rw [List.dropWhile_append, hb] at hd
  by_cases he : ((l.rdropWhile isBlank).dropWhile isBlank).isEmpty = true
  · rw [if_pos he] at hd
    exact .inl ⟨List.isEmpty_iff.mp he, hd⟩
  · rw [if_neg he] at hd
    exact .inr ⟨_, hd, fun h => he (List.isEmpty_iff.mpr h)⟩

theorem strtrim_head (l : List Char) :
    (strtrimWhitespace l).head? = (l.dropWhile isBlank).head? := by
  rcases dropWhile_strtrim l with ⟨h1, h2⟩ | ⟨t, h1, h2⟩
  · rw [h1, h2]
  · rw [h1, List.head?_append_of_ne_nil _ h2]

theorem strtrim_length_le (l : List Char) :
    (strtrimWhitespace l).length ≤ (l.dropWhile isBlank).length := by
  rcases dropWhile_strtrim l with ⟨h1, h2⟩ | ⟨t, h1, _⟩
  · rw [h1, h2]
  · rw [h1, List.length_append]
    exact Nat.le_add_right _ _

theorem strtrim_pad {a w b : List Char} (ha : Blanks a) (hb : Blanks b) (hne : w ≠ [])
    (hw : Trimmed w) : strtrimWhitespace (a ++ w ++ b) = w := by
  unfold strtrimWhitespace
  have hlast : isBlank (w.getLast hne) = false := hw.2 _ (List.getLast?_eq_some_getLast hne)
  have hr : (a ++ w ++ b).rdropWhile isBlank = a ++ w := by
    have hbr : ∀ c ∈ b.reverse, isBlank c = true := fun c hc => hb c (List.mem_reverse.mp hc)
    unfold List.rdropWhile
    rw [List.reverse_append, List.dropWhile_append_of_pos hbr]
    have hself : (a ++ w).rdropWhile isBlank = a ++ w := by
      rw [List.rdropWhile_eq_self_iff]
      intro hl
      rw [List.getLast_append_of_ne_nil hl hne, hlast]
      exact Bool.false_ne_true
    exact hself
  rw [hr, List.dropWhile_append_of_pos ha]
  obtain ⟨c, t, rfl⟩ := List.exists_cons_of_ne_nil hne
  refine List.dropWhile_cons_of_neg ?_
  rw [hw.1 c rfl]
  exact Bool.false_ne_true

/-! ## one buffer -/

/-- the buffer starts, after signs `=` and blanks, like a comment -/
def HashLed (buf : List Char) : Prop :=
  ((buf.dropWhile (· = '=')).dropWhile isBlank).head? = some '#'

def GoodBuf (buf : List Char) : Prop :=
  parseBuf buf = some .comment ∨ ∃ o v, parseBuf buf = some (.pair o v)

def pairOf (buf : List Char) : Option (List Char × List Char) :=
  match parseBuf buf with
  | some (.pair o v) => some (o, v)
  | _ => none

theorem parseBuf_ne_eof (buf : List Char) : parseBuf buf ≠ some .eof := by
  unfold parseBuf
  split
  · exact fun h => nomatch h
  · dsimp only
    split
    · exact fun h => nomatch h
    · split
      · exact fun h => nomatch h
      · split
        · exact fun h => nomatch h
        · split
          · exact fun h => nomatch h
          · exact fun h => nomatch h

theorem not_goodBuf_of_error {buf : List Char}
    (h : parseBuf buf = none ∨ parseBuf buf = some .error) : ¬ GoodBuf buf := by
  rintro (hg | ⟨o, v, hg⟩)
  · rw [hg] at h
    rcases h with h | h <;> cases h
  · rw [hg] at h
    rcases h with h | h <;> cases h

/-- up to a character that is no blank, the first character behind the blanks is the same -/
theorem hash_takeWhile {d : Char} (hd : isBlank d = false) (hh : d ≠ '#') (t : List Char) :
    ((t.takeWhile (· ≠ d)).dropWhile isBlank).head? = some '#' ↔
      (t.dropWhile isBlank).head? = some '#' := by
  induction t with
  | nil => exact Iff.rfl
  | cons c t ih =>
    by_cases he : c = d
    · subst he
      simp [hd, hh]
    · rw [List.takeWhile_cons_of_pos (by simpa using he)]
      by_cases hb : isBlank c = true
      · rw [List.dropWhile_cons_of_pos hb, List.dropWhile_cons_of_pos hb]
        exact ih
      · rw [List.dropWhile_cons_of_neg hb, List.dropWhile_cons_of_neg hb]
        exact Iff.rfl

theorem parseBuf_of_hashLed {buf : List Char} (hn : '\x00' ∉ buf) (h : HashLed buf) :
    parseBuf buf = some .comment := by
  unfold HashLed at h
  unfold parseBuf strtok
  rw [cstr_of_no_nul hn]
  cases hd : buf.dropWhile (· = '=') with
  | nil =>
    rw [hd] at h
    cases h
  | cons c t =>
    rw [hd] at h
    have hh : (strtrimWhitespace ((c :: t).takeWhile (· ≠ '='))).head? = some '#' := by
      rw [strtrim_head]
      exact (hash_takeWhile (by decide) (by decide) _).mpr h
    exact if_pos hh

theorem hashLed_of_comment {buf : List Char} (hn : '\x00' ∉ buf)
    (h : parseBuf buf = some .comment) : HashLed buf := by
  unfold HashLed
  unfold parseBuf strtok at h
  rw [cstr_of_no_nul hn] at h
  cases hd : buf.dropWhile (· = '=') with
  | nil =>
    rw [hd] at h
    cases h
  | cons c t =>
    rw [hd] at h
    dsimp only at h
    split at h
    · rename_i hh
      rw [strtrim_head] at hh
      exact (hash_takeWhile (by decide) (by decide) _).mp hh
    · split at h
      · cases h
      · split at h
        · cases h
        · split at h
          · cases h
          · cases h

theorem dropWhile_eq_of_head {buf : List Char} (h : buf.head? ≠ some '=') :
    buf.dropWhile (· = '=') = buf := by
  cases buf with
  | nil => rfl
  | cons c t =>
    refine List.dropWhile_cons_of_neg ?_
    intro he
    exact h (congrArg some (of_decide_eq_true he))

theorem head_ne_of_not_mem {buf : List Char} {c : Char} (h : c ∉ buf) : buf.head? ≠ some c :=
  fun hh => h (List.mem_of_mem_head? hh)

theorem not_goodBuf {buf : List Char} (hn : '\x00' ∉ buf) (he : '=' ∉ buf) (hne : buf ≠ [])
    (hh : ¬ HashLed buf) : ¬ GoodBuf buf := by
  rintro (h | ⟨o, v, h⟩)
  · exact hh (hashLed_of_comment hn h)
  · unfold parseBuf at h
    rw [cstr_of_no_nul hn, strtok_all hne he] at h
    dsimp only at h
    split at h
    · cases h
    · split at h
      · cases h
      · cases h

/-- a pair in a buffer: the name in front of the sign, the value behind it -/
theorem parseBuf_pair {a b : List Char} {e : List Char} (hn : '\x00' ∉ a ++ '=' :: (b ++ e))
    (ha : '=' ∉ a) (hane : a ≠ []) (hb : '\n' ∉ b) (hbne : b ≠ []) (he : e = [] ∨ e = ['\n'])
    (hh : (strtrimWhitespace a).head? ≠ some '#') :
    parseBuf (a ++ '=' :: (b ++ e))
      = if bufOptionSize ≤ (strtrimWhitespace a).length then none
        else if bufOptionSize ≤ (strtrimWhitespace b).length then none
        else some (.pair (strtrimWhitespace a) (strtrimWhitespace b)) := by
  have hb2 : ∃ r, strtok '\n' (b ++ e) = some (b, r) := by
    rcases he with rfl | rfl
    · rw [List.append_nil]
      exact ⟨_, strtok_all hbne hb⟩
    · exact ⟨_, strtok_append hbne hb⟩
  obtain ⟨r, hb2⟩ := hb2
  unfold parseBuf
  rw [cstr_of_no_nul hn, strtok_append hane ha]
  dsimp only
  rw [if_neg hh, hb2]

/-! ## lines -/

structure Word (l : List Char) : Prop where
  ne : l ≠ []
  short : l.length ≤ 127
  plain : Plain l
  trimmed : Trimmed l

/-- `name = value` -/
structure PairLine where
  lead : List Char
  name : List Char
  mid : List Char
  post : List Char
  value : List Char
  trail : List Char
  lead_blanks : Blanks lead
  mid_blanks : Blanks mid
  post_blanks : Blanks post
  trail_blanks : Blanks trail
  name_word : Word name
  name_eq : '=' ∉ name
  name_hash : name.head? ≠ some '#'
  value_word : Word value

inductive ConfigLine where
  | blank (text : List Char) (h : Blanks text)
  | comment (lead text : List Char) (hl : Blanks lead) (ht : Plain text)
  | pair (p : PairLine)

namespace ConfigLine

def text : ConfigLine → List Char
  | .blank text _ => text
  | .comment lead text _ _ => lead ++ '#' :: text
  | .pair p => (p.lead ++ p.name ++ p.mid) ++ '=' :: (p.post ++ p.value ++ p.trail)

def pairs : ConfigLine → List (List Char × List Char)
  | .blank _ _ => []
  | .comment _ _ _ _ => []
  | .pair p => [(p.name, p.value)]

/-- what `parse` needs of the line that ends with `e` -/
def Fits (e : List Char) : ConfigLine → Prop
  | .blank _ _ => False
  | .comment lead text _ _ => ∀ buf ∈ cuts 1022 (lead ++ '#' :: text ++ e), HashLed buf
  | .pair p => (text (.pair p) ++ e).length ≤ 1023

theorem plain (l : ConfigLine) : Plain l.text := by
  have happ : ∀ {a b : List Char}, Plain a → Plain b → Plain (a ++ b) := by
    intro a b ha hb
    refine ⟨?_, ?_⟩
    · rw [List.mem_append, not_or]
      exact ⟨ha.1, hb.1⟩
    · rw [List.mem_append, not_or]
      exact ⟨ha.2, hb.2⟩
  have hcons : ∀ {c : Char} {b : List Char}, c ≠ '\n' → c ≠ '\x00' → Plain b → Plain (c :: b) := by
    intro c b h1 h2 hb
    refine ⟨?_, ?_⟩
    · rw [List.mem_cons, not_or]
      exact ⟨h1.symm, hb.1⟩
    · rw [List.mem_cons, not_or]
      exact ⟨h2.symm, hb.2⟩
  cases l with
  | blank text h => exact h.plain
  | comment lead text hl ht => exact happ hl.plain (hcons (by decide) (by decide) ht)
  | pair p =>
    refine happ (happ (happ p.lead_blanks.plain p.name_word.plain) p.mid_blanks.plain) ?_
    refine hcons (by decide) (by decide) ?_
    exact happ (happ p.post_blanks.plain p.value_word.plain) p.trail_blanks.plain

end ConfigLine

/-- how a line ends: with a newline, or, not empty, with the file -/
def EndsWith (l : ConfigLine) (e : List Char) : Prop := e = ['\n'] ∨ e = [] ∧ l.text ≠ []

theorem EndsWith.cases {l : ConfigLine} {e : List Char} (h : EndsWith l e) : e = [] ∨ e = ['\n'] :=
  h.symm.imp_left And.left

def lineBufs (l : ConfigLine) (e : List Char) : List (List Char) := cuts 1022 (l.text ++ e)

theorem EndsWith.ne_nil {l : ConfigLine} {e : List Char} (h : EndsWith l e) : l.text ++ e ≠ [] := by
  rcases h with rfl | ⟨rfl, hne⟩
  · simp
  · rwa [List.append_nil]

theorem EndsWith.no_nul {l : ConfigLine} {e : List Char} (h : EndsWith l e) :
    '\x00' ∉ l.text ++ e := by
  rw [List.mem_append, not_or]
  refine ⟨l.plain.2, ?_⟩
  rcases h.cases with rfl | rfl
  · exact List.not_mem_nil
  · decide

def LineRead (l : ConfigLine) (e : List Char) : Prop :=
  (∀ buf ∈ lineBufs l e, GoodBuf buf) ∧ (lineBufs l e).filterMap pairOf = l.pairs

theorem mem_cuts {n : Nat} {l buf : List Char} (h : buf ∈ cuts n l) : ∀ c ∈ buf, c ∈ l := by
  induction l using cuts.induct n with
  | case1 =>
    rw [cuts_nil] at h
    cases h
  | case2 c t ih =>
    rw [cuts] at h
    intro x hx
    rcases List.mem_cons.mp h with rfl | h
    · exact List.mem_of_mem_take hx
    · exact List.mem_cons_of_mem _ (List.mem_of_mem_drop (ih h x hx))

theorem pairOf_comment {buf : List Char} (h : parseBuf buf = some .comment) : pairOf buf = none := by
  unfold pairOf
  rw [h]

theorem pairOf_pair {buf o v : List Char} (h : parseBuf buf = some (.pair o v)) :
    pairOf buf = some (o, v) := by
  unfold pairOf
  rw [h]

/-! ### blank lines -/

theorem not_mem_of_blank {buf : List Char} (h : ∀ c ∈ buf, isBlank c = true ∨ c = '\n') {c : Char}
    (hb : isBlank c = false) (hn : c ≠ '\n') : c ∉ buf := by
  intro hm
  rcases h c hm with h | h
  · rw [hb] at h
    cases h
  · exact hn h

theorem blank_not_hashLed {buf : List Char} (h : ∀ c ∈ buf, isBlank c = true ∨ c = '\n') :
    ¬ HashLed buf := by
  unfold HashLed
  have he : '=' ∉ buf := not_mem_of_blank h (by decide) (by decide)
  rw [dropWhile_eq_of_head (head_ne_of_not_mem he)]
  intro hh
  have hm : '#' ∈ buf := (List.dropWhile_sublist _).subset (List.mem_of_mem_head? hh)
  exact not_mem_of_blank h (by decide) (by decide) hm

theorem blank_not_goodBuf {buf : List Char} (hne : buf ≠ [])
    (h : ∀ c ∈ buf, isBlank c = true ∨ c = '\n') : ¬ GoodBuf buf := by
  refine not_goodBuf ?_ ?_ hne (blank_not_hashLed h)
  · exact not_mem_of_blank h (by decide) (by decide)
  · exact not_mem_of_blank h (by decide) (by decide)

theorem lineBufs_blank {text e : List Char} {h : Blanks text} (he : EndsWith (.blank text h) e) :
    ¬ ∀ buf ∈ lineBufs (.blank text h) e, GoodBuf buf := by
  intro hg
  unfold lineBufs at hg
  rw [cuts_of_ne_nil he.ne_nil] at hg
  refine blank_not_goodBuf ?_ ?_ (hg _ List.mem_cons_self)
  · rw [Ne, List.take_eq_nil_iff, not_or]
    exact ⟨Nat.succ_ne_zero _, he.ne_nil⟩
  · intro c hc
    rcases List.mem_append.mp (List.mem_of_mem_take hc) with hc | hc
    · exact .inl (h c hc)
    · refine .inr ?_
      rcases he.cases with rfl | rfl
      · cases hc
      · exact List.mem_singleton.mp hc

/-! ### comment lines -/

theorem lineRead_comment {lead text e : List Char} {hl : Blanks lead} {ht : Plain text}
    (he : EndsWith (.comment lead text hl ht) e) :
    LineRead (.comment lead text hl ht) e ↔ (ConfigLine.comment lead text hl ht).Fits e := by
  have hnul : ∀ buf ∈ lineBufs (.comment lead text hl ht) e, '\x00' ∉ buf :=
    fun buf hb hm => he.no_nul (mem_cuts hb _ hm)
  constructor
  · intro h buf hb
    have hp : pairOf buf = none := List.filterMap_eq_nil_iff.mp h.2 buf hb
    rcases h.1 buf hb with hc | ⟨o, v, hv⟩
    · exact hashLed_of_comment (hnul buf hb) hc
    · rw [pairOf_pair hv] at hp
      cases hp
  · intro h
    have hc : ∀ buf ∈ lineBufs (.comment lead text hl ht) e, parseBuf buf = some .comment :=
      fun buf hb => parseBuf_of_hashLed (hnul buf hb) (h buf hb)
    refine ⟨fun buf hb => .inl (hc buf hb), ?_⟩
    exact List.filterMap_eq_nil_iff.mpr fun buf hb => pairOf_comment (hc buf hb)

/-! ### pairs -/

namespace PairLine
variable (p : PairLine)

def front : List Char := p.lead ++ p.name ++ p.mid

def back : List Char := p.post ++ p.value ++ p.trail

theorem front_ne : p.front ≠ [] := by
  unfold front
  simp [p.name_word.ne]

theorem back_ne : p.back ≠ [] := by
  unfold back
  simp [p.value_word.ne]

theorem front_eq : '=' ∉ p.front := by
  unfold front
  rw [List.mem_append, List.mem_append, not_or, not_or]
  exact ⟨⟨p.lead_blanks.not_mem (by decide), p.name_eq⟩, p.mid_blanks.not_mem (by decide)⟩

theorem back_newline : '\n' ∉ p.back := by
  unfold back
  rw [List.mem_append, List.mem_append, not_or, not_or]
  exact ⟨⟨p.post_blanks.plain.1, p.value_word.plain.1⟩, p.trail_blanks.plain.1⟩

theorem strtrim_front : strtrimWhitespace p.front = p.name :=
  strtrim_pad p.lead_blanks p.mid_blanks p.name_word.ne p.name_word.trimmed

theorem strtrim_back : strtrimWhitespace p.back = p.value :=
  strtrim_pad p.post_blanks p.trail_blanks p.value_word.ne p.value_word.trimmed

theorem text_eq (e : List Char) :
    (ConfigLine.pair p).text ++ e = p.front ++ '=' :: (p.back ++ e) := by
  show (p.front ++ '=' :: p.back) ++ e = _
  rw [List.append_assoc, List.cons_append]

theorem parseBuf_text {e : List Char} (he : EndsWith (.pair p) e) :
    parseBuf ((ConfigLine.pair p).text ++ e) = some (.pair p.name p.value) := by
  have hn : '\x00' ∉ p.front ++ '=' :: (p.back ++ e) := by
    rw [← p.text_eq]
    exact he.no_nul
  have hs := parseBuf_pair hn p.front_eq p.front_ne p.back_newline p.back_ne he.cases
    (by rw [p.strtrim_front]; exact p.name_hash)
  have h1 := p.name_word.short
  have h2 := p.value_word.short
  rw [p.text_eq, hs, p.strtrim_front, p.strtrim_back, if_neg, if_neg]
  · unfold bufOptionSize
    omega
  · unfold bufOptionSize
    omega

/-- a piece at the start of the line is no comment -/
theorem take_not_hashLed (e : List Char) (k : Nat) :
    ¬ HashLed (((ConfigLine.pair p).text ++ e).take k) := by
  obtain ⟨c, t, hc⟩ := List.exists_cons_of_ne_nil p.name_word.ne
  have hblank : isBlank c = false := p.name_word.trimmed.1 c (by rw [hc]; rfl)
  have heq : c ≠ '=' := fun h => p.name_eq (by rw [hc, h]; exact List.mem_cons_self)
  have hhash : c ≠ '#' := fun h => p.name_hash (by rw [hc, h]; rfl)
  have hl : (ConfigLine.pair p).text ++ e = p.lead ++ c :: (t ++ p.mid ++ '=' :: (p.back ++ e)) := by
    rw [p.text_eq]
    unfold front
    rw [hc]
    simp
  rw [hl]
  rcases Nat.lt_or_ge p.lead.length k with hk | hk
  · obtain ⟨j, rfl⟩ : ∃ j, k = p.lead.length + (j + 1) := ⟨k - p.lead.length - 1, by omega⟩
    rw [List.take_length_add_append, List.take_succ_cons]
    unfold HashLed
    rw [dropWhile_eq_of_head, List.dropWhile_append_of_pos p.lead_blanks,
      List.dropWhile_cons_of_neg (by rw [hblank]; exact Bool.false_ne_true)]
    · intro h
      exact hhash (Option.some.inj h)
    · cases hlead : p.lead with
      | nil => exact fun h => heq (Option.some.inj h)
      | cons b bs =>
        intro h
        have hb : isBlank b = true := p.lead_blanks b (by rw [hlead]; exact List.mem_cons_self)
        rw [Option.some.inj h] at hb
        exact absurd hb (by decide)
  · rw [List.take_append_of_le_length hk]
    exact blank_not_hashLed fun c hc => .inl (p.lead_blanks c (List.mem_of_mem_take hc))

theorem first_pair {e : List Char} (he : EndsWith (.pair p) e)
    (hg : GoodBuf (((ConfigLine.pair p).text ++ e).take 1023)) :
    ∃ o v, parseBuf (((ConfigLine.pair p).text ++ e).take 1023) = some (.pair o v) := by
  rcases hg with h | h
  · have hn : '\x00' ∉ ((ConfigLine.pair p).text ++ e).take 1023 :=
      fun hm => he.no_nul (List.mem_of_mem_take hm)
    exact absurd (hashLed_of_comment hn h) (p.take_not_hashLed e _)
  · exact h

end PairLine

/-- the value of a pair is what stands between the sign and the end of the line -/
theorem value_of_pair {a b o v : List Char} (hn : '\x00' ∉ a ++ '=' :: b) (ha : '=' ∉ a)
    (hane : a ≠ []) (hb : '\n' ∉ b) (h : parseBuf (a ++ '=' :: b) = some (.pair o v)) :
    v = strtrimWhitespace b := by
  unfold parseBuf at h
  rw [cstr_of_no_nul hn, strtok_append hane ha] at h
  dsimp only at h
  by_cases hbne : b = []
  · subst hbne
    rw [strtok_nil] at h
    split at h
    · cases h
    · split at h
      · cases h
      · cases h
  · rw [strtok_all hbne hb] at h
    dsimp only at h
    split at h
    · cases h
    · split at h
      · cases h
      · split at h
        · cases h
        · cases h
          rfl

theorem strtrim_take_length {a m : List Char} (ha : Blanks a) (j : Nat) :
    (strtrimWhitespace ((a ++ m).take j)).length ≤ j - a.length := by
  have hd : ((a ++ m).take j).dropWhile isBlank = (m.take (j - a.length)).dropWhile isBlank := by
    rw [List.take_append, List.dropWhile_append_of_pos fun c hc => ha c (List.mem_of_mem_take hc)]
  calc (strtrimWhitespace ((a ++ m).take j)).length
      ≤ (((a ++ m).take j).dropWhile isBlank).length := strtrim_length_le _
    _ = ((m.take (j - a.length)).dropWhile isBlank).length := by rw [hd]
    _ ≤ (m.take (j - a.length)).length := (List.dropWhile_sublist _).length_le
    _ ≤ j - a.length := List.length_take_le _ _

namespace PairLine
variable (p : PairLine)

/-- behind the value there are blanks and the end of the line -/
theorem mem_rest {e : List Char} (he : e = [] ∨ e = ['\n']) {j : Nat}
    (hj : p.post.length + p.value.length ≤ j) :
    ∀ c ∈ (p.back ++ e).drop j, isBlank c = true ∨ c = '\n' := by
  intro c hc
  have hb : p.back ++ e = (p.post ++ p.value) ++ (p.trail ++ e) := by
    unfold back
    simp
  rw [hb, List.drop_append, List.drop_of_length_le (by rwa [List.length_append]),
    List.nil_append] at hc
  rcases List.mem_append.mp (List.mem_of_mem_drop hc) with hc | hc
  · exact .inl (p.trail_blanks c hc)
  · rcases he with rfl | rfl
    · cases hc
    · exact .inr (List.mem_singleton.mp hc)

/-- a line that does not fit into the buffer is not read as it is meant -/
theorem not_lineRead {e : List Char} (he : EndsWith (.pair p) e)
    (hlong : 1023 < ((ConfigLine.pair p).text ++ e).length) : ¬ LineRead (.pair p) e := by
  intro ⟨hg, hp⟩
  unfold lineBufs at hg hp
  rw [cuts_of_ne_nil he.ne_nil] at hg hp
  have hg1 := hg _ List.mem_cons_self
  obtain ⟨o, v, hov⟩ := p.first_pair he hg1
  rw [List.filterMap_cons, pairOf_pair hov] at hp
  have hv : v = p.value := congrArg Prod.snd (List.cons.inj hp).1
  have hn : '\x00' ∉ ((ConfigLine.pair p).text ++ e).take 1023 :=
    fun hm => he.no_nul (List.mem_of_mem_take hm)
  -- the sign is in the first buffer, for there is no pair without it
  have hfront : p.front.length < 1023 := by
    by_contra hlt
    refine not_goodBuf hn ?_ ?_ (p.take_not_hashLed e _) hg1
    · rw [p.text_eq, List.take_append_of_le_length (by omega)]
      exact fun hm => p.front_eq (List.mem_of_mem_take hm)
    · rw [Ne, List.take_eq_nil_iff, not_or]
      exact ⟨by decide, he.ne_nil⟩
  obtain ⟨j, hj⟩ : ∃ j, 1023 = p.front.length + (j + 1) := ⟨1023 - p.front.length - 1, by omega⟩
  have htake : ((ConfigLine.pair p).text ++ e).take 1023 = p.front ++ '=' :: (p.back ++ e).take j := by
    rw [p.text_eq, hj, List.take_length_add_append, List.take_succ_cons]
  have hdrop : ((ConfigLine.pair p).text ++ e).drop (1022 + 1) = (p.back ++ e).drop j := by
    rw [p.text_eq, show 1022 + 1 = 1023 from rfl, hj, List.drop_length_add_append,
      List.drop_succ_cons]
  have hlen : j < (p.back ++ e).length := by
    rw [p.text_eq, List.length_append, List.length_cons] at hlong
    omega
  have hjb : j ≤ p.back.length := by
    rw [List.length_append] at hlen
    rcases he.cases with rfl | rfl
    · exact Nat.le_of_lt hlen
    · exact Nat.le_of_lt_succ hlen
  -- and the whole value with it
  rw [htake, List.take_append_of_le_length hjb] at hov hn
  have hval := value_of_pair hn p.front_eq p.front_ne
    (fun hm => p.back_newline (List.mem_of_mem_take hm)) hov
  have hle : p.value.length ≤ j - p.post.length := by
    rw [← hv, hval]
    unfold back
    rw [List.append_assoc]
    exact strtrim_take_length p.post_blanks j
  have hpos : 0 < p.value.length := List.length_pos_iff.mpr p.value_word.ne
  -- so the second one holds nothing but blanks
  have hne : (p.back ++ e).drop j ≠ [] := by
    rw [Ne, List.drop_eq_nil_iff]
    omega
  rw [hdrop, cuts_of_ne_nil hne] at hg
  refine blank_not_goodBuf ?_ ?_ (hg _ (List.mem_cons_of_mem _ List.mem_cons_self))
  · rw [Ne, List.take_eq_nil_iff, not_or]
    exact ⟨by decide, hne⟩
  · intro c hc
    exact p.mem_rest he.cases (by omega) c (List.mem_of_mem_take hc)

theorem lineRead_iff {e : List Char} (he : EndsWith (.pair p) e) :
    LineRead (.pair p) e ↔ (ConfigLine.pair p).Fits e := by
  constructor
  · intro h
    by_contra hlong
    exact p.not_lineRead he (Nat.lt_of_not_le hlong) h
  · intro h
    have hb : lineBufs (.pair p) e = [(ConfigLine.pair p).text ++ e] := cuts_of_le he.ne_nil h
    have hp := p.parseBuf_text he
    unfold LineRead
    rw [hb]
    refine ⟨?_, ?_⟩
    · intro buf hm
      rw [List.mem_singleton.mp hm]
      exact .inr ⟨_, _, hp⟩
    · rw [List.filterMap_cons, pairOf_pair hp]
      rfl

end PairLine

/-! ### every line -/

theorem lineRead_iff_fits {l : ConfigLine} {e : List Char} (he : EndsWith l e) :
    LineRead l e ↔ l.Fits e := by
  cases l with
  | blank text h =>
    constructor
    · exact fun hr => lineBufs_blank he hr.1
    · exact fun hf => hf.elim
  | comment lead text hl ht => exact lineRead_comment he
  | pair p => exact p.lineRead_iff he

/-- a line that is read gives at least the pairs it is meant to -/
theorem pairs_length_le {l : ConfigLine} {e : List Char} (he : EndsWith l e)
    (hg : ∀ buf ∈ lineBufs l e, GoodBuf buf) :
    l.pairs.length ≤ ((lineBufs l e).filterMap pairOf).length := by
  cases l with
  | blank text h => exact Nat.zero_le _
  | comment lead text hl ht => exact Nat.zero_le _
  | pair p =>
    unfold lineBufs at hg ⊢
    rw [cuts_of_ne_nil he.ne_nil] at hg ⊢
    obtain ⟨o, v, hov⟩ := p.first_pair he (hg _ List.mem_cons_self)
    rw [List.filterMap_cons, pairOf_pair hov]
    exact Nat.succ_le_succ (Nat.zero_le _)

/-! ## files -/

structure ConfigFile where
  lines : List ConfigLine
  /-- a last line without a newline -/
  last : Option ConfigLine
  last_ne : ∀ l ∈ last, l.text ≠ []

namespace ConfigFile
variable (f : ConfigFile)

def text : List Char :=
  (f.lines.flatMap fun l => l.text ++ ['\n']) ++ f.last.elim [] ConfigLine.text

def ended : List (ConfigLine × List Char) :=
  f.lines.map (fun l => (l, ['\n'])) ++ f.last.toList.map fun l => (l, [])

def pairs : List (List Char × List Char) := f.ended.flatMap fun r => r.1.pairs

def Readable : Prop := ∀ r ∈ f.ended, r.1.Fits r.2

theorem endsWith {r : ConfigLine × List Char} (h : r ∈ f.ended) : EndsWith r.1 r.2 := by
  rcases List.mem_append.mp h with h | h
  · obtain ⟨l, _, rfl⟩ := List.mem_map.mp h
    exact .inl rfl
  · obtain ⟨l, hl, rfl⟩ := List.mem_map.mp h
    exact .inr ⟨rfl, f.last_ne l (Option.mem_toList.mp hl)⟩

def bufs : List (List Char) := f.ended.flatMap fun r => lineBufs r.1 r.2

theorem reads : Reads buf1Size f.text f.bufs := by
  have hlast : Reads (1022 + 2) (f.last.elim [] ConfigLine.text)
      ((f.last.toList.map fun l => (l, [])).flatMap fun r => lineBufs r.1 r.2) := by
    cases f.last with
    | none => exact .eof
    | some l =>
      have h := Reads.last (n := 1022) _ l.text (Nat.le_refl _) l.plain.1
      simpa [lineBufs] using h
  have hlines : ∀ ls : List ConfigLine,
      Reads (1022 + 2) ((ls.flatMap fun l => l.text ++ ['\n']) ++ f.last.elim [] ConfigLine.text)
        ((ls.map (fun l => (l, ['\n']))).flatMap (fun r => lineBufs r.1 r.2) ++
          (f.last.toList.map fun l => (l, [])).flatMap fun r => lineBufs r.1 r.2) := by
    intro ls
    induction ls with
    | nil => exact hlast
    | cons l ls ih =>
      rw [List.flatMap_cons, List.map_cons, List.flatMap_cons, List.append_assoc, List.append_assoc,
        List.append_assoc, List.singleton_append]
      exact ih.newline _ l.text (Nat.le_refl _) l.plain.1
  unfold text bufs ended
  rw [List.flatMap_append]
  exact hlines f.lines

end ConfigFile

/-! ## the loop over the file -/

theorem configLoop_reads {w : Nat} {fin : List Char} {bufs : List (List Char)}
    (h : Reads buf1Size fin bufs) :
    ∀ (fuel : Nat) (applied a : List (List Char × List Char)) (s s' : Settings),
      bufs.length < fuel →
        (configLoop w fuel fin applied s = .done a s' ↔
          (∀ buf ∈ bufs, GoodBuf buf) ∧ a = applied ++ bufs.filterMap pairOf ∧
            s' = (fileEvents (bufs.filterMap pairOf)).foldl (configStep w) s) := by
  induction h with
  | eof =>
    intro fuel applied a s s' hf
    obtain ⟨fuel, rfl⟩ : ∃ k, fuel = k + 1 := ⟨fuel - 1, by omega⟩
    show FileOutcome.done applied s = .done a s' ↔ _
    constructor
    · intro h
      cases h
      exact ⟨(fun _ hm => by cases hm), (List.append_nil _).symm, rfl⟩
    · rintro ⟨-, ha, hs⟩
      rw [ha, hs, List.filterMap_nil, List.append_nil]
      rfl
  | @next fin buf rest bufs hfg _ ih =>
    intro fuel applied a s s' hf
    obtain ⟨fuel, rfl⟩ : ∃ k, fuel = k + 1 := ⟨fuel - 1, by omega⟩
    rw [List.length_cons, Nat.succ_lt_succ_iff] at hf
    have hparse : parse fin = (parseBuf buf).map fun r => (r, rest) := by
      unfold parse
      rw [hfg]
    rw [List.forall_mem_cons, List.filterMap_cons]
    unfold configLoop
    rw [hparse]
    rcases hb : parseBuf buf with _ | r
    · exact ⟨(fun h => by cases h), fun h => absurd h.1.1 (not_goodBuf_of_error (.inl hb))⟩
    · cases r with
      | eof => exact absurd hb (parseBuf_ne_eof buf)
      | error =>
        exact ⟨(fun h => by cases h), fun h => absurd h.1.1 (not_goodBuf_of_error (.inr hb))⟩
      | comment =>
        have hgood : GoodBuf buf := .inl hb
        rw [pairOf_comment hb, and_iff_right hgood]
        exact ih fuel applied a s s' hf
      | pair o v =>
        have hgood : GoodBuf buf := .inr ⟨o, v, hb⟩
        rw [pairOf_pair hb, and_iff_right hgood]
        have h := ih fuel (applied ++ [(o, v)]) a (assignNamed w o v s) s' hf
        rw [List.append_assoc] at h
        exact h

theorem length_flatMap_le {α β : Type} {f g : α → List β} {l : List α}
    (h : ∀ a ∈ l, (g a).length ≤ (f a).length) : (l.flatMap g).length ≤ (l.flatMap f).length := by
  induction l with
  | nil => exact Nat.le_refl _
  | cons a l ih =>
    rw [List.forall_mem_cons] at h
    rw [List.flatMap_cons, List.flatMap_cons, List.length_append, List.length_append]
    exact Nat.add_le_add h.1 (ih h.2)

/-- lists that are at least as long part by part are equal only part by part -/
theorem flatMap_eq_iff {α β : Type} {f g : α → List β} {l : List α}
    (h : ∀ a ∈ l, (g a).length ≤ (f a).length) :
    l.flatMap f = l.flatMap g ↔ ∀ a ∈ l, f a = g a := by
  induction l with
  | nil => exact ⟨(fun _ _ hm => nomatch hm), fun _ => rfl⟩
  | cons a l ih =>
    rw [List.forall_mem_cons] at h ⊢
    have hlen := length_flatMap_le h.2
    have hhead := h.1
    rw [List.flatMap_cons, List.flatMap_cons, ← ih h.2]
    constructor
    · intro he
      have hsum := congrArg List.length he
      rw [List.length_append, List.length_append] at hsum
      exact List.append_inj he (by omega)
    · rintro ⟨h1, h2⟩
      rw [h1, h2]

/-- **Which files are read.**  The loop reaches the end of the file and has applied its pairs, in
order and no others, exactly if the file is readable. -/
theorem config_file_read (w : Nat) (f : ConfigFile) (s : Settings) :
    configInitUseFile w (some f.text) s
      = .done f.pairs ((fileEvents f.pairs).foldl (configStep w) s) ↔ f.Readable := by
  have hfuel : f.bufs.length < f.text.length + 1 := Nat.lt_succ_of_le f.reads.length_le
  have hread : configInitUseFile w (some f.text) s
      = .done f.pairs ((fileEvents f.pairs).foldl (configStep w) s) ↔
        (∀ buf ∈ f.bufs, GoodBuf buf) ∧ f.bufs.filterMap pairOf = f.pairs := by
    refine (configLoop_reads f.reads _ _ _ _ _ hfuel).trans ?_
    rw [List.nil_append]
    constructor
    · exact fun h => ⟨h.1, h.2.1.symm⟩
    · exact fun h => ⟨h.1, h.2.symm, by rw [h.2]⟩
  rw [hread]
  unfold ConfigFile.bufs ConfigFile.pairs ConfigFile.Readable
  rw [List.filterMap_flatMap]
  constructor
  · intro ⟨hg, hp⟩ r hr
    have hgood : ∀ r ∈ f.ended, ∀ buf ∈ lineBufs r.1 r.2, GoodBuf buf :=
      fun r hr buf hb => hg buf (List.mem_flatMap.mpr ⟨r, hr, hb⟩)
    have heach := (flatMap_eq_iff fun r hr => pairs_length_le (f.endsWith hr) (hgood r hr)).mp hp
    exact (lineRead_iff_fits (f.endsWith hr)).mp ⟨hgood r hr, heach r hr⟩
  · intro h
    have hline : ∀ r ∈ f.ended, LineRead r.1 r.2 :=
      fun r hr => (lineRead_iff_fits (f.endsWith hr)).mpr (h r hr)
    refine ⟨?_, ?_⟩
    · intro buf hb
      obtain ⟨r, hr, hb⟩ := List.mem_flatMap.mp hb
      exact (hline r hr).1 buf hb
    · exact List.flatMap_congr fun r hr => (hline r hr).2

/-- ` statistics = disable ` -/
def statisticsOff : PairLine where
  lead := [' ']
  name := "statistics".toList
  mid := [' ']
  post := [' ']
  value := textDisable
  trail := [' ']
  lead_blanks := blanks_space
  mid_blanks := blanks_space
  post_blanks := blanks_space
  trail_blanks := blanks_space
  name_word := ⟨by decide, by decide, ⟨by decide, by decide⟩,
    trimmed_of_ends rfl rfl rfl rfl⟩
  name_eq := by decide
  name_hash := by decide
  value_word := ⟨by decide, by decide, ⟨by decide, by decide⟩,
    trimmed_of_ends rfl rfl rfl rfl⟩

/-- a comment and a pair -/
def commentedPair : ConfigFile where
  lines :=
    [.comment [] " statistics".toList (fun _ h => nomatch h) ⟨by decide, by decide⟩,
      .pair statisticsOff]
  last := none
  last_ne := fun _ h => nomatch h

/-- the file is readable, and its pair is applied -/
example : commentedPair.Readable ∧ configInitUseFile 64 (some commentedPair.text) defvalues
    = .done [("statistics".toList, textDisable)]
        (assignNamed 64 "statistics".toList textDisable defvalues) := by
  refine ⟨?_, rfl⟩
  intro r hr
  rcases List.mem_cons.mp hr with rfl | hr
  · intro buf hb
    rw [cuts_of_le (by decide) (by decide), List.mem_singleton] at hb
    rw [hb]
    unfold HashLed
    decide
  · rw [List.mem_singleton.mp hr]
    unfold ConfigLine.Fits
    decide

/-- a comment line and a blank line, as in the `txc.ini` of the distribution -/
def shippedStyle : ConfigFile where
  lines :=
    [.comment [] "Enables statistics collection.".toList (fun _ h => nomatch h)
        ⟨by decide, by decide⟩,
      .blank [] fun _ h => nomatch h]
  last := none
  last_ne := fun _ h => nomatch h

/-- the blank line ends the process -/
theorem blank_line_exits : configInitUseFile 64 (some shippedStyle.text) defvalues = .exited ∧
    ¬ ∀ (f : ConfigFile) (s : Settings), configInitUseFile 64 (some f.text) s
      = .done f.pairs ((fileEvents f.pairs).foldl (configStep 64) s) := by
  have hex : configInitUseFile 64 (some shippedStyle.text) defvalues = .exited := rfl
  refine ⟨hex, ?_⟩
  intro h
  have h1 := h shippedStyle defvalues
  rw [hex] at h1
  cases h1

end XCalls
