import XCalls.Lib.CString

/-!
# The runtime configuration

`config.c`: the options of `FOREACH_RUNTIME_CONFIG_OPTION` start from their defaults and are set
from a file, from the environment and by `txc_config_set_option`, all through `option_set`.

* `RuntimeOption`, `Settings`   the options, and `txc_runtime_settings`;
* `optionSet`                   one assignment;
* `parse`, `configInitUseFile`  the file.  `FileOutcome.done` notes the pairs that were applied;
                                `exited`: the `parse_result_error` branch; `overrun`: an option or
                                a value that does not fit into its buffer of 128 characters;
* `configInitUseEnv`, `txcConfigSetOption`.

`config_last_valid_wins`: after any file that is read to its end, any environment and any calls,
each option has the value of its last valid assignment.

`w` is the width of a `long`, which `atoi` goes through.  What is left out: `config_print` and the
warnings, which set nothing.
-/

set_option linter.unusedSectionVars false

namespace XCalls
open CString

/-! ## the options -/

inductive OptionValuetype where
  | integer
  | string
  | boolean
  deriving DecidableEq, Repr

/-- the column `store_type` -/
@[reducible] def StoreType : OptionValuetype → Type
  | .integer => Int32
  | .string => List Char
  | .boolean => Bool

/-- `validvalues`: the range of an integer, the texts of the others -/
@[reducible] def ValidValues : OptionValuetype → Type
  | .integer => Int32 × Int32
  | .string => List (List Char)
  | .boolean => List (List Char)

inductive RuntimeOption where
  | debugAll
  | debugKoa
  | debugPool
  | debugSentinel
  | debugTx
  | debugXcall
  | printconf
  | statistics
  | statisticsFile
  | sentinelMaxSpinRetries
  | sentinelMaxBackoffTime
  deriving DecidableEq, Repr

def textEnable : List Char := "enable".toList
def textDisable : List Char := "disable".toList

namespace RuntimeOption

def name : RuntimeOption → List Char
  | .debugAll => "debug_all".toList
  | .debugKoa => "debug_koa".toList
  | .debugPool => "debug_pool".toList
  | .debugSentinel => "debug_sentinel".toList
  | .debugTx => "debug_tx".toList
  | .debugXcall => "debug_xcall".toList
  | .printconf => "printconf".toList
  | .statistics => "statistics".toList
  | .statisticsFile => "statistics_file".toList
  | .sentinelMaxSpinRetries => "sentinel_max_spin_retries".toList
  | .sentinelMaxBackoffTime => "sentinel_max_backoff_time".toList

def type : RuntimeOption → OptionValuetype
  | .statisticsFile => .string
  | .sentinelMaxSpinRetries => .integer
  | .sentinelMaxBackoffTime => .integer
  | _ => .boolean

def defvalue : (o : RuntimeOption) → StoreType o.type
  | .debugAll => false
  | .debugKoa => false
  | .debugPool => false
  | .debugSentinel => false
  | .debugTx => false
  | .debugXcall => false
  | .printconf => false
  | .statistics => true
  | .statisticsFile => "txc.stats".toList
  | .sentinelMaxSpinRetries => (0 : Int32)
  | .sentinelMaxBackoffTime => (0 : Int32)

def validvalues : (o : RuntimeOption) → ValidValues o.type
  | .debugAll => [textEnable, textDisable]
  | .debugKoa => [textEnable, textDisable]
  | .debugPool => [textEnable, textDisable]
  | .debugSentinel => [textEnable, textDisable]
  | .debugTx => [textEnable, textDisable]
  | .debugXcall => [textEnable, textDisable]
  | .printconf => [textEnable, textDisable]
  | .statistics => [textEnable, textDisable]
  | .statisticsFile => []
  | .sentinelMaxSpinRetries => ((0 : Int32), (1000 : Int32))
  | .sentinelMaxBackoffTime => ((0 : Int32), (1000 : Int32))

end RuntimeOption

/-- the table `options[]`, which each of the three functions builds -/
def options : List RuntimeOption :=
  [.debugAll, .debugKoa, .debugPool, .debugSentinel, .debugTx, .debugXcall, .printconf,
    .statistics, .statisticsFile, .sentinelMaxSpinRetries, .sentinelMaxBackoffTime]

/-- `txc_runtime_settings_t` -/
abbrev Settings := (o : RuntimeOption) → StoreType o.type

/-- `DEFVALUES` -/
def defvalues : Settings := RuntimeOption.defvalue

/-! ## `option_set` -/

/-- what `option_set` stores, if the value is valid -/
def optionValue (w : Nat) : (ty : OptionValuetype) → ValidValues ty → List Char →
    Option (StoreType ty)
  | .integer, (lo, hi), value =>
    let intValue := atoi w value
    if intValue < lo ∨ hi < intValue then none else some intValue
  | .string, valid, value => if valid ≠ [] ∧ value ∉ valid then none else some value
  | .boolean, valid, value =>
    if valid ≠ [] ∧ value ∉ valid then none else some (decide (value = textEnable))

def optionSet (w : Nat) (o : RuntimeOption) (value : List Char) (s : Settings) : Settings :=
  match optionValue w o.type o.validvalues value with
  | some v => Function.update s o v
  | none => s

/-- the loop over `options[]` that compares the names -/
def assignNamed (w : Nat) (option value : List Char) (s : Settings) : Settings :=
  match options.find? fun o => o.name = option with
  | some o => optionSet w o value s
  | none => s

def txcConfigSetOption (w : Nat) (option value : List Char) (s : Settings) : Settings :=
  assignNamed w option value s

/-! ## the environment -/

/-- `TXC_` and the name in upper case -/
def RuntimeOption.envName (o : RuntimeOption) : List Char :=
  "TXC_".toList ++ o.name.map Char.toUpper

def configInitUseEnv (w : Nat) (getenv : List Char → Option (List Char)) (s : Settings) : Settings :=
  options.foldl (fun s o =>
    match getenv o.envName with
    | some envValue => optionSet w o envValue s
    | none => s) s

/-! ## the file -/

def isBlank (c : Char) : Bool := c = ' ' || c = '\t'

def strtrimWhitespace (str : List Char) : List Char :=
  (str.rdropWhile isBlank).dropWhile isBlank

inductive ParseResult where
  | pair (option value : List Char)
  | eof
  | error
  | comment
  deriving DecidableEq, Repr

/-- the size of `buf_option` and `buf_value` -/
def bufOptionSize : Nat := 128

/-- `parse` after `fgets`; `none` when `strcpy` writes behind `option` or `value` -/
def parseBuf (buf1 : List Char) : Option ParseResult :=
  match strtok '=' (cstr buf1) with
  | none => some .error
  | some (subtoken, saved) =>
    let trimmed := strtrimWhitespace subtoken
    if trimmed.head? = some '#' then some .comment
    else if bufOptionSize ≤ trimmed.length then none
    else
      match strtok '\n' saved with
      | none => some .error
      | some (subtoken, _) =>
        let value := strtrimWhitespace subtoken
        if bufOptionSize ≤ value.length then none else some (.pair trimmed value)

/-- the size of `buf1` -/
def buf1Size : Nat := 1024

def parse (fin : List Char) : Option (ParseResult × List Char) :=
  match fgets buf1Size fin with
  | none => some (.eof, [])
  | some (buf1, fin) => (parseBuf buf1).map fun r => (r, fin)

inductive FileOutcome where
  | done (applied : List (List Char × List Char)) (s : Settings)
  | exited
  | overrun
  | outOfFuel

/-- the loop of `config_init_use_file` -/
def configLoop (w : Nat) : Nat → List Char → List (List Char × List Char) → Settings → FileOutcome
  | 0, _, _, _ => .outOfFuel
  | fuel + 1, fin, applied, s =>
    match parse fin with
    | none => .overrun
    | some (.eof, _) => .done applied s
    | some (.error, _) => .exited
    | some (.comment, fin) => configLoop w fuel fin applied s
    | some (.pair option value, fin) =>
      configLoop w fuel fin (applied ++ [(option, value)]) (assignNamed w option value s)

/-- the file's text, or `none` if it cannot be opened -/
def configInitUseFile (w : Nat) : Option (List Char) → Settings → FileOutcome
  | none, s => .done [] s
  | some fin, s => configLoop w (fin.length + 1) fin [] s

/-! ## assignments -/

/-- the text is a valid value of an option of this type -/
def ValidText (w : Nat) : OptionValuetype → List Char → Prop
  | .integer, value => 0 ≤ atoi w value ∧ atoi w value ≤ 1000
  | .string, _ => True
  | .boolean, value => value = textEnable ∨ value = textDisable

instance (w : Nat) : ∀ ty value, Decidable (ValidText w ty value)
  | .integer, _ => inferInstanceAs (Decidable (_ ∧ _))
  | .string, _ => inferInstanceAs (Decidable True)
  | .boolean, _ => inferInstanceAs (Decidable (_ ∨ _))

/-- what a valid text stands for -/
def meaning (w : Nat) : (ty : OptionValuetype) → List Char → StoreType ty
  | .integer, value => atoi w value
  | .string, value => value
  | .boolean, value => decide (value = textEnable)

/-- the values of the integer options are within their range -/
def inRange : (ty : OptionValuetype) → StoreType ty → Prop
  | .integer, v => 0 ≤ v ∧ v ≤ 1000
  | .string, _ => True
  | .boolean, _ => True

def InRange (s : Settings) : Prop := ∀ o, inRange o.type (s o)

/-- a pair of the file, a variable of the environment, a call -/
inductive ConfigEvent where
  | pair (option value : List Char)
  | env (o : RuntimeOption) (value : List Char)
  | setOption (option value : List Char)

def configStep (w : Nat) (s : Settings) : ConfigEvent → Settings
  | .pair option value => assignNamed w option value s
  | .env o value => optionSet w o value s
  | .setOption option value => txcConfigSetOption w option value s

namespace ConfigEvent

def Names (o : RuntimeOption) : ConfigEvent → Prop
  | .pair option _ => option = o.name
  | .env o' _ => o' = o
  | .setOption option _ => option = o.name

def value : ConfigEvent → List Char
  | .pair _ value => value
  | .env _ value => value
  | .setOption _ value => value

instance (o : RuntimeOption) : ∀ e : ConfigEvent, Decidable (e.Names o)
  | .pair _ _ => inferInstanceAs (Decidable (_ = _))
  | .env _ _ => inferInstanceAs (Decidable (_ = _))
  | .setOption _ _ => inferInstanceAs (Decidable (_ = _))

end ConfigEvent

theorem optionValue_eq (w : Nat) (o : RuntimeOption) (value : List Char) :
    optionValue w o.type o.validvalues value
      = if ValidText w o.type value then some (meaning w o.type value) else none := by
  have hint : ∀ v : Int32, (v < 0 ∨ 1000 < v) ↔ ¬ (0 ≤ v ∧ v ≤ 1000) := by
    intro v
    rw [← Int32.not_le, ← Int32.not_le]
    exact Decidable.not_and_iff_not_or_not.symm
  have hbool : ([textEnable, textDisable] ≠ [] ∧ value ∉ [textEnable, textDisable]) ↔
      ¬ (value = textEnable ∨ value = textDisable) := by
    simp
  cases o with
  | statisticsFile => rfl
  | sentinelMaxSpinRetries | sentinelMaxBackoffTime =>
    show (if atoi w value < 0 ∨ 1000 < atoi w value then none else some (atoi w value)) = _
    rw [ite_cond_congr (propext (hint _)), ite_not]
    rfl
  | _ =>
    show (if [textEnable, textDisable] ≠ [] ∧ value ∉ [textEnable, textDisable] then none
      else some (decide (value = textEnable))) = _
    rw [ite_cond_congr (propext hbool), ite_not]
    rfl

/-! ## what one assignment does -/

theorem find_name (o : RuntimeOption) : options.find? (fun o' => o'.name = o.name) = some o := by
  cases o <;> rfl

theorem optionSet_apply (w : Nat) (o' : RuntimeOption) (value : List Char) (s : Settings)
    (o : RuntimeOption) :
    optionSet w o' value s o
      = if o' = o ∧ ValidText w o.type value then meaning w o.type value else s o := by
  unfold optionSet
  rw [optionValue_eq]
  by_cases ho : o' = o
  · subst ho
    by_cases hv : ValidText w o'.type value
    · simp [hv]
    · simp [hv]
  · have hne : o ≠ o' := fun h => ho h.symm
    rw [if_neg (not_and_of_not_left _ ho)]
    by_cases hv : ValidText w o'.type value
    · rw [if_pos hv]
      exact Function.update_of_ne hne _ _
    · rw [if_neg hv]

theorem assignNamed_apply (w : Nat) (option value : List Char) (s : Settings) (o : RuntimeOption) :
    assignNamed w option value s o
      = if option = o.name ∧ ValidText w o.type value then meaning w o.type value else s o := by
  unfold assignNamed
  cases hf : options.find? fun o => o.name = option with
  | none =>
    -- the option that is named would have been found
    have hn : option ≠ o.name := by
      intro h
      rw [h, find_name] at hf
      cases hf
    rw [if_neg (not_and_of_not_left _ hn)]
  | some o' =>
    have hn : o'.name = option := by simpa using List.find?_some hf
    have hiff : o' = o ↔ option = o.name := by
      constructor
      · rintro rfl
        exact hn.symm
      · intro h
        rw [h, find_name] at hf
        exact (Option.some.inj hf).symm
    show optionSet w o' value s o = _
    rw [optionSet_apply]
    simp only [hiff]

theorem configStep_apply (w : Nat) (s : Settings) (e : ConfigEvent) (o : RuntimeOption) :
    configStep w s e o
      = if e.Names o ∧ ValidText w o.type e.value then meaning w o.type e.value else s o := by
  cases e with
  | pair option value => exact assignNamed_apply w option value s o
  | env o' value => exact optionSet_apply w o' value s o
  | setOption option value => exact assignNamed_apply w option value s o

theorem inRange_meaning {w : Nat} {ty : OptionValuetype} {value : List Char}
    (h : ValidText w ty value) : inRange ty (meaning w ty value) := by
  cases ty with
  | integer => exact h
  | string => trivial
  | boolean => trivial

theorem InRange.step {w : Nat} {s : Settings} (h : InRange s) (e : ConfigEvent) :
    InRange (configStep w s e) := by
  intro o
  rw [configStep_apply]
  split
  · rename_i hv
    exact inRange_meaning hv.2
  · exact h o

theorem inRange_defvalues : InRange defvalues := by
  intro o
  cases o with
  | sentinelMaxSpinRetries | sentinelMaxBackoffTime =>
    exact ⟨Int32.le_refl 0, (by decide : (0 : Int32) ≤ 1000)⟩
  | _ => trivial

theorem InRange.run {w : Nat} (evs : List ConfigEvent) :
    ∀ {s : Settings}, InRange s → InRange (evs.foldl (configStep w) s) := by
  induction evs with
  | nil => exact fun h => h
  | cons e evs ih => exact fun h => ih (h.step e)

/-! ## what a run of assignments leaves -/

/-- the last valid one of the values, or `d` -/
def lastValid (w : Nat) (ty : OptionValuetype) (d : StoreType ty) (values : List (List Char)) :
    StoreType ty :=
  match (values.filter fun v => ValidText w ty v).getLast? with
  | some v => meaning w ty v
  | none => d

theorem lastValid_cons (w : Nat) (ty : OptionValuetype) (d : StoreType ty) (v : List Char)
    (values : List (List Char)) :
    lastValid w ty d (v :: values)
      = lastValid w ty (if ValidText w ty v then meaning w ty v else d) values := by
  unfold lastValid
  by_cases hv : ValidText w ty v
  · rw [List.filter_cons_of_pos (by simpa using hv), List.getLast?_cons, if_pos hv]
    cases (values.filter fun v => ValidText w ty v).getLast? <;> rfl
  · rw [List.filter_cons_of_neg (by simpa using hv), if_neg hv]

/-- the values that the events give to `o`, in order -/
def valuesFor (o : RuntimeOption) (evs : List ConfigEvent) : List (List Char) :=
  (evs.filter fun e => e.Names o).map ConfigEvent.value

theorem valuesFor_cons_of_pos {o : RuntimeOption} {e : ConfigEvent} (h : e.Names o)
    (evs : List ConfigEvent) : valuesFor o (e :: evs) = e.value :: valuesFor o evs := by
  unfold valuesFor
  rw [List.filter_cons_of_pos (by simpa using h), List.map_cons]

theorem valuesFor_cons_of_neg {o : RuntimeOption} {e : ConfigEvent} (h : ¬ e.Names o)
    (evs : List ConfigEvent) : valuesFor o (e :: evs) = valuesFor o evs := by
  unfold valuesFor
  rw [List.filter_cons_of_neg (by simpa using h)]

theorem configRun_apply (w : Nat) (o : RuntimeOption) (evs : List ConfigEvent) :
    ∀ s : Settings, evs.foldl (configStep w) s o = lastValid w o.type (s o) (valuesFor o evs) := by
  induction evs with
  | nil => exact fun s => rfl
  | cons e evs ih =>
    intro s
    rw [List.foldl_cons, ih, configStep_apply]
    by_cases hn : e.Names o
    · rw [valuesFor_cons_of_pos hn, lastValid_cons]
      simp only [hn, true_and]
    · rw [valuesFor_cons_of_neg hn, if_neg (not_and_of_not_left _ hn)]

/-! ## the three sources -/

def fileEvents (pairs : List (List Char × List Char)) : List ConfigEvent :=
  pairs.map fun p => .pair p.1 p.2

def envEvents (getenv : List Char → Option (List Char)) : List ConfigEvent :=
  options.filterMap fun o => (getenv o.envName).map (.env o)

def callEvents (calls : List (List Char × List Char)) : List ConfigEvent :=
  calls.map fun c => .setOption c.1 c.2

theorem configLoop_done {w : Nat} (fuel : Nat) :
    ∀ {fin : List Char} {applied pairs : List (List Char × List Char)} {s s' : Settings},
      configLoop w fuel fin applied s = .done pairs s' →
        ∃ new, pairs = applied ++ new ∧ s' = (fileEvents new).foldl (configStep w) s := by
  induction fuel with
  | zero =>
    intro fin applied pairs s s' h
    cases h
  | succ fuel ih =>
    intro fin applied pairs s s' h
    unfold configLoop at h
    split at h
    · cases h
    · cases h
      exact ⟨[], (List.append_nil _).symm, rfl⟩
    · cases h
    · exact ih h
    · rename_i option value fin' _
      obtain ⟨new, hp, hs⟩ := ih h
      refine ⟨(option, value) :: new, ?_, hs⟩
      rw [hp, List.append_assoc]
      rfl

theorem configInitUseFile_done {w : Nat} {file : Option (List Char)} {s s' : Settings}
    {pairs : List (List Char × List Char)} (h : configInitUseFile w file s = .done pairs s') :
    s' = (fileEvents pairs).foldl (configStep w) s := by
  cases file with
  | none =>
    cases h
    rfl
  | some fin =>
    obtain ⟨new, hp, hs⟩ := configLoop_done _ h
    rw [hp]
    exact hs

theorem configInitUseEnv_eq (w : Nat) (getenv : List Char → Option (List Char)) (s : Settings) :
    configInitUseEnv w getenv s = (envEvents getenv).foldl (configStep w) s := by
  unfold configInitUseEnv envEvents
  rw [List.foldl_filterMap]
  congr 1
  funext s o
  cases getenv o.envName <;> rfl

theorem setOptions_eq (w : Nat) (calls : List (List Char × List Char)) (s : Settings) :
    calls.foldl (fun s c => txcConfigSetOption w c.1 c.2 s) s
      = (callEvents calls).foldl (configStep w) s := by
  unfold callEvents
  rw [List.foldl_map]
  rfl

/-- the values that a list of pairs gives to the option of this name -/
def valuesOf (name : List Char) (pairs : List (List Char × List Char)) : List (List Char) :=
  (pairs.filter fun p => p.1 = name).map Prod.snd

theorem valuesFor_fileEvents (o : RuntimeOption) (pairs : List (List Char × List Char)) :
    valuesFor o (fileEvents pairs) = valuesOf o.name pairs := by
  unfold valuesFor valuesOf fileEvents
  rw [List.filter_map, List.map_map]
  rfl

theorem valuesFor_callEvents (o : RuntimeOption) (calls : List (List Char × List Char)) :
    valuesFor o (callEvents calls) = valuesOf o.name calls := by
  unfold valuesFor valuesOf callEvents
  rw [List.filter_map, List.map_map]
  rfl

theorem valuesFor_variables {o : RuntimeOption} (g : RuntimeOption → Option (List Char))
    (l : List RuntimeOption) (hl : l.Nodup) :
    valuesFor o (l.filterMap fun o => (g o).map (.env o))
      = if o ∈ l then (g o).toList else [] := by
  induction l with
  | nil => rfl
  | cons o' l ih =>
    have hl' := List.nodup_cons.mp hl
    rw [List.filterMap_cons]
    by_cases ho : o' = o
    · subst ho
      have ih := ih hl'.2
      rw [if_neg hl'.1] at ih
      rw [if_pos List.mem_cons_self]
      cases hg : g o' with
      | none => exact ih
      | some v =>
        have hn : (ConfigEvent.env o' v).Names o' := rfl
        rw [Option.map_some, valuesFor_cons_of_pos hn, ih]
        rfl
    · have hmem : o ∈ o' :: l ↔ o ∈ l := by
        rw [List.mem_cons, or_iff_right fun h => ho h.symm]
      simp only [hmem]
      cases hg : g o' with
      | none => exact ih hl'.2
      | some v =>
        have hn : ¬ (ConfigEvent.env o' v).Names o := ho
        rw [Option.map_some, valuesFor_cons_of_neg hn]
        exact ih hl'.2

theorem valuesFor_envEvents (o : RuntimeOption) (getenv : List Char → Option (List Char)) :
    valuesFor o (envEvents getenv) = (getenv o.envName).toList := by
  unfold envEvents
  rw [valuesFor_variables _ _ (by decide), if_pos]
  cases o <;> decide

/-- all assignments of a configuration, in order -/
def configEvents (pairs : List (List Char × List Char)) (getenv : List Char → Option (List Char))
    (calls : List (List Char × List Char)) : List ConfigEvent :=
  fileEvents pairs ++ envEvents getenv ++ callEvents calls

/-- **The last valid assignment wins.**  For every file that is read to its end, with the pairs
`pairs`, every environment and every sequence of calls: the settings are what the assignments leave
one after the other; each option has the value of its last valid assignment, or its default; an
assignment that does not name an option, or has no valid value for it, leaves it as it was; and the
integer options are in their range all the time. -/
theorem config_last_valid_wins {w : Nat} {file : Option (List Char)}
    {pairs : List (List Char × List Char)} {s₁ : Settings}
    (hfile : configInitUseFile w file defvalues = .done pairs s₁)
    (getenv : List Char → Option (List Char)) (calls : List (List Char × List Char)) :
    let s := calls.foldl (fun s c => txcConfigSetOption w c.1 c.2 s) (configInitUseEnv w getenv s₁)
    let evs := configEvents pairs getenv calls
    s = evs.foldl (configStep w) defvalues ∧
    (∀ o, s o = lastValid w o.type o.defvalue
      (valuesOf o.name pairs ++ (getenv o.envName).toList ++ valuesOf o.name calls)) ∧
    (∀ before e, before ++ [e] <+: evs → ∀ o, ¬ (e.Names o ∧ ValidText w o.type e.value) →
      configStep w (before.foldl (configStep w) defvalues) e o
        = before.foldl (configStep w) defvalues o) ∧
    ∀ before, before <+: evs → InRange (before.foldl (configStep w) defvalues) := by
  intro s evs
  have hs : s = evs.foldl (configStep w) defvalues := by
    show calls.foldl _ _ = _
    rw [setOptions_eq, configInitUseEnv_eq, configInitUseFile_done hfile, ← List.foldl_append,
      ← List.foldl_append, ← List.append_assoc]
    rfl
  refine ⟨hs, ?_, ?_, ?_⟩
  · intro o
    have hv : valuesFor o evs
        = valuesOf o.name pairs ++ (getenv o.envName).toList ++ valuesOf o.name calls := by
      rw [← valuesFor_fileEvents, ← valuesFor_envEvents, ← valuesFor_callEvents]
      show List.map _ (List.filter _ (_ ++ _ ++ _)) = _
      rw [List.filter_append, List.filter_append, List.map_append, List.map_append]
      rfl
    rw [hs, configRun_apply, hv]
    rfl
  · intro before e _ o hno
    rw [configStep_apply, if_neg hno]
  · intro before _
    exact inRange_defvalues.run before

/-- two lines for one option, the second of them with a comment before it -/
def retriesFile : List Char :=
  "sentinel_max_spin_retries = 7\n# more\nsentinel_max_spin_retries=+50\n".toList

/-- the variable of that option, with a value out of its range -/
def retriesEnv (name : List Char) : Option (List Char) :=
  if name = "TXC_SENTINEL_MAX_SPIN_RETRIES".toList then some "1001".toList else none

theorem retriesFile_read : ∃ s, configInitUseFile 64 (some retriesFile) defvalues
    = .done [("sentinel_max_spin_retries".toList, "7".toList),
        ("sentinel_max_spin_retries".toList, "+50".toList)] s :=
  ⟨_, rfl⟩

/-- the file's second value stays: neither the variable nor the call has a valid one -/
theorem config_retries : ∃ pairs s₁,
    configInitUseFile 64 (some retriesFile) defvalues = .done pairs s₁ ∧
    txcConfigSetOption 64 "statistics".toList "off".toList (configInitUseEnv 64 retriesEnv s₁)
      .sentinelMaxSpinRetries = (50 : Int32) := by
  obtain ⟨s₁, hf⟩ := retriesFile_read
  have h := config_last_valid_wins hf retriesEnv [("statistics".toList, "off".toList)]
  refine ⟨_, s₁, hf, ?_⟩
  have ho := h.2.1 .sentinelMaxSpinRetries
  simp only [List.foldl_cons, List.foldl_nil] at ho
  rw [ho]
  rfl

end XCalls
