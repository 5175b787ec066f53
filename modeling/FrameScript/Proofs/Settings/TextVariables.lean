import FrameScript.Proofs.Number.Reprinting
import FrameScript.Proofs.Offences
import FrameScript.Settings.Load

/-!
# Texts from variables

A variable replaces what is at the path of its name, whatever is in the way, so of all that is
there for one setting the last variable counts. Its text is taken for a scalar where it can be
read as one, and the scalar is printed again where a text is asked for. The text comes back if it
is the one that its scalar prints; leading zeros, signs and exponents, say, do not.
-/

namespace FrameScript
namespace Settings

open Unicode (lowercase)

/-- The settings that are one text. -/
inductive TextSetting where
  | entry
  | filter

namespace TextSetting

def area : TextSetting → String
  | entry => "scripts"
  | filter => "logging"

def field : TextSetting → String
  | entry => "entry"
  | filter => "filter"

def variableName : TextSetting → String
  | entry => "CADENCE_SCRIPTS__ENTRY"
  | filter => "CADENCE_LOGGING__FILTER"

def get (setting : TextSetting) (s : Settings) : String :=
  match setting with
  | entry => s.scripts.entry
  | filter => s.logging.filter

theorem keyOfVariable (setting : TextSetting) :
    keyOfVariable? setting.variableName = some (setting.area ++ "." ++ setting.field) := by
  cases setting <;> decide +kernel

theorem pathOfKey (setting : TextSetting) :
    Settings.pathOfKey (setting.area ++ "." ++ setting.field) =
      [.name setting.area, .name setting.field] := by
  cases setting <;> decide +kernel

theorem lowercase_area (setting : TextSetting) : lowercase setting.area = setting.area := by
  cases setting <;> decide +kernel

theorem lowercase_field (setting : TextSetting) : lowercase setting.field = setting.field := by
  cases setting <;> decide +kernel

end TextSetting

variable {area field : String} {v w : SettingsValue} {path : List KeyStep}

/-- The table has the value at a field of a section. -/
def Holds (area field : String) (v : SettingsValue) (present : SettingsValue) : Prop :=
  ∃ source entries inner members, present = .table source entries ∧
    Table.lookup area entries = some (.table inner members) ∧
      Table.lookup field members = some v

/-- Setting what is at the path can change what is at the field of the section. -/
def Touches (area field : String) : List KeyStep → Prop
  | .name n :: .name k :: _ => lowercase n = area ∧ lowercase k = field
  | .name n :: _ => lowercase n = area
  | _ => True

theorem lookup_put {other : String} (apart : other ≠ lowercase field) (entries : SettingsEntries)
    (v : SettingsValue) :
    Table.lookup other (put field entries v) = Table.lookup other entries := by
  cases v with
  | missing | scalar source v | list source items =>
    rw [put, Table.lookup_insertEntry, if_neg apart]
  | table source incoming =>
    rw [put, Table.lookup_insertEntry, if_neg apart]

theorem lookup_putAt {other n : String} (apart : other ≠ lowercase n) (v : SettingsValue)
    (path : List KeyStep) (source : Option String) (entries : SettingsEntries) :
    ∃ after, putAt v (.name n :: path) (.table source entries) = .table source after ∧
      Table.lookup other after = Table.lookup other entries := by
  cases path with
  | nil => exact ⟨_, rfl, lookup_put apart entries v⟩
  | cons step rest =>
    refine ⟨_, rfl, ?_⟩
    rw [Table.lookup_insertEntry, if_neg apart]

theorem Holds.putAt (h : Holds area field v w) (apart : ¬ Touches area field path)
    (u : SettingsValue) : Holds area field v (putAt u path w) := by
  obtain ⟨source, entries, inner, members, rfl, at_section, at_key⟩ := h
  cases path with
  | nil => exact absurd trivial apart
  | cons step path =>
    cases step with
    | place index => exact absurd trivial apart
    | name n =>
      by_cases same : lowercase n = area
      · subst same
        cases path with
        | nil => exact absurd rfl apart
        | cons step rest =>
          cases step with
          | place index => exact absurd rfl apart
          | name k =>
            have other : field ≠ lowercase k := fun same => apart ⟨rfl, same.symm⟩
            obtain ⟨after, whole, others⟩ := lookup_putAt other u rest inner members
            refine ⟨source, _, inner, after, rfl, ?_, others.trans at_key⟩
            rw [Table.lookup_insertEntry, if_pos rfl, at_section, Option.getD_some, whole]
      · obtain ⟨after, whole, others⟩ := lookup_putAt (Ne.symm same) u path source entries
        exact ⟨source, after, inner, members, whole, others.trans at_section, at_key⟩

/-- A scalar at the path of a field is there, whatever was in its way. -/
theorem holds_putAt (source : String) (scalar : SettingsScalar) (area field : String)
    (present : SettingsValue) : Holds (lowercase area) (lowercase field) (.scalar source scalar)
      (putAt (.scalar source scalar) [.name area, .name field] present) := by
  let entries := present.tableParts.2
  let inner := (Table.lookup (lowercase area) entries).getD .missing
  refine ⟨present.tableParts.1, _, inner.tableParts.1,
    put field inner.tableParts.2 (.scalar source scalar), rfl, ?_, ?_⟩
  · rw [Table.lookup_insertEntry, if_pos rfl]
    rfl
  · rw [put, Table.lookup_insertEntry, if_pos rfl]

/-- The variable can change what is at the field of the section. -/
def VariableTouches (area field : String) (name : String) : Prop :=
  ∃ k, keyOfVariable? name = some k ∧ Touches area field (pathOfKey k)

theorem Holds.merge {after : List (String × String)} (h : Holds area field v w)
    (last : ∀ e ∈ after, ¬ VariableTouches area field e.1) :
    Holds area field v (merge w (ofEnvironment ⟨after⟩)) := by
  induction after generalizing w with
  | nil => exact h
  | cons e rest ih =>
    obtain ⟨apart, others⟩ := List.forall_mem_cons.mp last
    cases names : keyOfVariable? e.1 with
    | none =>
      have skipped : ofEnvironment ⟨e :: rest⟩ = ofEnvironment ⟨rest⟩ := by
        simp [ofEnvironment, names]
      rw [skipped]
      exact ih h others
    | some k =>
      have taken : ofEnvironment ⟨e :: rest⟩ =
          (k, valueOfVariable k e.2) :: ofEnvironment ⟨rest⟩ := by
        simp [ofEnvironment, names]
      rw [taken]
      exact ih (h.putAt (fun touches => apart ⟨k, names, touches⟩) _) others

/-- Of the variables that touch a setting the last one counts. -/
theorem holds_merge {before after : List (String × String)} {name text k : String}
    (names : keyOfVariable? name = some k) {scalar : SettingsScalar}
    (gives : valueOfVariable k text = .scalar variableSource scalar)
    (leads : pathOfKey k = [.name area, .name field])
    (last : ∀ e ∈ after, ¬ VariableTouches (lowercase area) (lowercase field) e.1)
    (present : SettingsValue) :
    Holds (lowercase area) (lowercase field) (.scalar variableSource scalar)
      (merge present (ofEnvironment ⟨before ++ (name, text) :: after⟩)) := by
  have split : ofEnvironment ⟨before ++ (name, text) :: after⟩ =
      ofEnvironment ⟨before⟩ ++ (k, .scalar variableSource scalar) :: ofEnvironment ⟨after⟩ := by
    simp [ofEnvironment, names, gives]
  rw [split, merge, List.foldl_append, List.foldl_cons, leads]
  have first := holds_putAt variableSource scalar area field
    ((ofEnvironment ⟨before⟩).foldl (fun present e => putAt e.2 (pathOfKey e.1) present) present)
  generalize putAt _ _ _ = reached at first ⊢
  exact first.merge last

def printedScalar : SettingsScalar → String
  | .bool b => printBool b
  | .integer n => toString n
  | .float x => x.toText
  | .text s => s

theorem textOfValue_scalar (source : String) (scalar : SettingsScalar) :
    textOfValue (.scalar source scalar) = .ok (printedScalar scalar) := by
  cases scalar <;> rfl

variable {ε α β : Type} {r : SettingsReader ε α} {u : α} {s : Settings}

theorem settings_ok (h : r.settings u = .ok s) : ∃ member, r.members "" 4 u = .ok member ∧
    r.memberOr r.scripts {} (member 0 "scripts") = .ok s.scripts ∧
    r.memberOr r.logging {} (member 3 "logging") = .ok s.logging := by
  obtain ⟨member, found, h⟩ := bind_ok h
  obtain ⟨scripts, scripts_read, h⟩ := bind_ok h
  obtain ⟨scheduler, -, h⟩ := bind_ok h
  obtain ⟨driver, -, h⟩ := bind_ok h
  obtain ⟨logging, logging_read, h⟩ := bind_ok h
  cases h
  exact ⟨member, found, scripts_read, logging_read⟩

theorem scripts_ok {t : ScriptSettings} (h : r.scripts u = .ok t) :
    ∃ member, r.members "Scripts" 2 u = .ok member ∧
      r.memberOr r.text ({} : ScriptSettings).entry (member 1 "entry") = .ok t.entry := by
  obtain ⟨member, found, h⟩ := bind_ok h
  obtain ⟨paths, -, h⟩ := bind_ok h
  obtain ⟨entry, entry_read, h⟩ := bind_ok h
  cases h
  exact ⟨member, found, entry_read⟩

theorem logging_ok {t : LogSettings} (h : r.logging u = .ok t) :
    ∃ member, r.members "Logging" 1 u = .ok member ∧
      r.memberOr r.text ({} : LogSettings).filter (member 0 "filter") = .ok t.filter := by
  obtain ⟨member, found, h⟩ := bind_ok h
  obtain ⟨filter, filter_read, h⟩ := bind_ok h
  cases h
  exact ⟨member, found, filter_read⟩

theorem memberOr_ok {read : α → Except ε β} {default b : β} {step : KeyStep}
    (h : r.memberOr read default (some (step, u)) = .ok b) : read u = .ok b := by
  change (read u).mapError _ = _ at h
  cases comes : read u with
  | ok c => rw [comes] at h; cases h; rfl
  | error e => rw [comes] at h; cases h

theorem get_of_holds {setting : TextSetting} {source : String} {scalar : SettingsScalar}
    (holds : Holds setting.area setting.field (.scalar source scalar) w)
    (read : ofValue w = .ok s) : setting.get s = printedScalar scalar := by
  obtain ⟨outer, entries, inner, members, rfl, at_area, at_field⟩ := holds
  obtain ⟨member, found, scripts, logging⟩ := settings_ok read
  cases found
  cases setting with
  | entry =>
    have at_area : Table.lookup "scripts" entries = some (.table inner members) := at_area
    dsimp only at scripts
    rw [at_area] at scripts
    obtain ⟨member, found, entry⟩ := scripts_ok (memberOr_ok scripts)
    cases found
    have at_field : Table.lookup "entry" members = some (.scalar source scalar) := at_field
    dsimp only at entry
    rw [at_field] at entry
    exact Except.ok.inj ((memberOr_ok entry).symm.trans (textOfValue_scalar source scalar))
  | filter =>
    have at_area : Table.lookup "logging" entries = some (.table inner members) := at_area
    dsimp only at logging
    rw [at_area] at logging
    obtain ⟨member, found, filter⟩ := logging_ok (memberOr_ok logging)
    cases found
    have at_field : Table.lookup "filter" members = some (.scalar source scalar) := at_field
    dsimp only at filter
    rw [at_field] at filter
    exact Except.ok.inj ((memberOr_ok filter).symm.trans (textOfValue_scalar source scalar))

theorem checked_ok {read : Except Misfit Settings}
    (checked : (match read with
      | .ok t => t.check
      | .error misfit => .error (.unfit misfit)) = Except.ok s) : read = .ok s := by
  cases read with
  | ok t => rw [((check_eq_ok_iff t s).mp checked).2]
  | error misfit => cases checked

/-- Loaded settings are read from the values of a source with the variables on top. -/
theorem load_ok {files : FileTree} {env : Environment} {asked : Option String}
    (loaded : load files env asked = .ok s) :
    ∃ source, ofValue (merge (merge (.table none []) source) (ofEnvironment env)) = .ok s := by
  unfold load at loaded
  cases sourced : sourcePath? files env asked with
  | some path =>
    rw [sourced] at loaded
    obtain ⟨source, -, checked⟩ := bind_ok loaded
    exact ⟨source, checked_ok checked⟩
  | none =>
    rw [sourced] at loaded
    exact ⟨[], checked_ok loaded⟩

/-- The text that a setting gets from the text of its variable. -/
def settledText (text : String) : String := (scalarOfText? text).elim text printedScalar

/-- The text is the one that a switch, an integer of 64 bits or a number prints. -/
def Standard (text : String) : Prop :=
  text = "true" ∨ text = "false" ∨ (∃ n : Int, fitsSignedWord n ∧ toString n = text) ∨
    text ≠ "-0" ∧ ∃ x : Number, x.toText = text

theorem valueOfVariable_eq {key : String} (single : key ≠ listKey) (text : String) :
    ∃ scalar, valueOfVariable key text = .scalar variableSource scalar ∧
      printedScalar scalar = settledText text := by
  unfold valueOfVariable settledText
  dsimp only
  cases scalarOfText? text with
  | some v => exact ⟨v, rfl, rfl⟩
  | none => exact ⟨.text text, if_neg single, rfl⟩

/-- A text that begins like a number is no switch. -/
theorem scalarOfText?_of_numeral {text : String} (numeral : NumeralStart text) :
    scalarOfText? text = match signedWordOfText? text with
      | some n => some (.integer n)
      | none => (Number.ofText? text).map .float := by
  obtain ⟨ch, rest, rfl, first⟩ := numeral
  have lower : ch.toNat < 0x80 ∧ ch.toLower ≠ 't' ∧ ch.toLower ≠ 'f' ∧ ch ≠ '\u03a3' := by
    rcases first with digit | other
    · have low : ch.toNat < 0x80 := by
        have := (Char.isDigit_iff_toNat.mp digit).2
        exact this.trans_lt (by decide)
      have same : ch.toLower = ch := by
        delta Char.toLower
        delta Char.isDigit at digit
        grind
      rw [same]
      refine ⟨low, ?_, ?_, ?_⟩ <;> rintro rfl <;> cases digit
    · simp only [List.mem_cons, List.not_mem_nil, or_false] at other
      rcases other with rfl | rfl | rfl <;> decide
  obtain ⟨low, no_t, no_f, no_sigma⟩ := lower
  have word : ∃ rest', lowercase (String.ofList (ch :: rest)) =
      String.ofList (ch.toLower :: rest') := by
    rw [lowercase, String.toList_ofList, Unicode.lowerAfter]
    simp [no_sigma, Unicode.lowerChars, low]
  obtain ⟨rest', word⟩ := word
  have apart {w : String} (head : w.toList.head? ≠ some ch.toLower) :
      lowercase (String.ofList (ch :: rest)) ≠ w := by
    rintro rfl
    rw [word, String.toList_ofList] at head
    exact head rfl
  unfold scalarOfText?
  dsimp only
  exact (if_neg (apart (by simp [no_t.symm]))).trans (if_neg (apart (by simp [no_f.symm])))

theorem standard_of_printed {text : String} {scalar : SettingsScalar}
    (read : scalarOfText? text = some scalar) (same : printedScalar scalar = text) :
    Standard text := by
  unfold scalarOfText? at read
  dsimp only at read
  split at read
  · cases read
    exact .inl same.symm
  · split at read
    · cases read
      exact .inr (.inl same.symm)
    · split at read
      · rename_i n integer
        cases read
        exact .inr (.inr (.inl ⟨n, (Option.filter_eq_some_iff.mp integer).2, same⟩))
      · rename_i no_integer
        obtain ⟨x, -, rfl⟩ := Option.map_eq_some_iff.mp read
        refine .inr (.inr (.inr ⟨?_, x, same⟩))
        -- The text `-0` is an integer, not a number.
        rintro rfl
        have zero : signedWordOfText? "-0" = some 0 := by decide +kernel
        rw [zero] at no_integer
        cases no_integer

theorem settledText_eq_iff (text : String) :
    settledText text = text ↔ scalarOfText? text = none ∨ Standard text := by
  constructor
  · intro same
    cases read : scalarOfText? text with
    | none => exact .inl rfl
    | some scalar =>
      rw [settledText, read] at same
      exact .inr (standard_of_printed read same)
  · rintro (plain | rfl | rfl | ⟨n, fits, rfl⟩ | ⟨apart, x, rfl⟩)
    · rw [settledText, plain]
      rfl
    · decide +kernel
    · decide +kernel
    · have integer : signedWordOfText? (toString n) = some n := by
        rw [signedWordOfText?, intOfText?_toString, Option.filter_some_pos fits]
      rw [settledText, scalarOfText?_of_numeral (numeralStart_toString n), integer]
      rfl
    · rw [settledText, scalarOfText?_of_numeral x.numeralStart_toText]
      cases integer : signedWordOfText? x.toText with
      | some n =>
        exact Number.toString_of_intOfText? (Option.filter_eq_some_iff.mp integer).1 apart
      | none =>
        obtain ⟨y, read, same⟩ := x.ofText?_toText
        rw [read]
        exact same

/-- With the variable of a setting that is a text, and no variable after it that touches the same
setting, the setting is what the text gives, whatever the file and the other variables are. It is
the text itself just if the text is not read as a scalar, or is the one that the scalar prints. -/
theorem variable_sets_text (setting : TextSetting) {files : FileTree} {env : Environment}
    {asked : Option String} {s : Settings} {text : String} {before after : List (String × String)}
    (given : env.entries = before ++ (setting.variableName, text) :: after)
    (last : ∀ e ∈ after, ¬ VariableTouches setting.area setting.field e.1)
    (loaded : load files env asked = .ok s) :
    setting.get s = settledText text ∧
      (setting.get s = text ↔ scalarOfText? text = none ∨ Standard text) := by
  have single : setting.area ++ "." ++ setting.field ≠ listKey := by cases setting <;> decide
  obtain ⟨scalar, gives, printed⟩ := valueOfVariable_eq single text
  obtain ⟨source, read⟩ := load_ok loaded
  have holds : Holds (lowercase setting.area) (lowercase setting.field)
      (.scalar variableSource scalar) (merge (merge (.table none []) source)
        (ofEnvironment ⟨before ++ (setting.variableName, text) :: after⟩)) :=
    holds_merge setting.keyOfVariable gives setting.pathOfKey
      (by rwa [setting.lowercase_area, setting.lowercase_field]) _
  rw [← given, setting.lowercase_area, setting.lowercase_field] at holds
  have result : setting.get s = settledText text := (get_of_holds holds read).trans printed
  exact ⟨result, result ▸ settledText_eq_iff text⟩

/-- The usual file names one entry, a variable in lower case another, and the last one counts. -/
theorem variable_sets_text_over_file : ∃ s,
    load ⟨[(["cadence.toml"], .file "[scripts]\nentry = \"boot\"\n".toUTF8)]⟩
        ⟨[("cadence_scripts__entry", "wake"), ("CADENCE_SCRIPTS__ENTRY", "1.5"),
          ("CADENCE_DRIVER__FRAME_RATE", "30")]⟩ none = .ok s ∧ s.scripts.entry = "1.5" := by
  have loaded : load ⟨[(["cadence.toml"], .file "[scripts]\nentry = \"boot\"\n".toUTF8)]⟩
      ⟨[("cadence_scripts__entry", "wake"), ("CADENCE_SCRIPTS__ENTRY", "1.5"),
        ("CADENCE_DRIVER__FRAME_RATE", "30")]⟩ none =
      .ok { scripts := { entry := "1.5" }, driver := { frameRate := 30 } } := by decide +kernel
  have apart : ¬ VariableTouches "scripts" "entry" "CADENCE_DRIVER__FRAME_RATE" := by
    rintro ⟨key, names, touches⟩
    have other : keyOfVariable? "CADENCE_DRIVER__FRAME_RATE" = some "driver.frame_rate" := by
      decide +kernel
    rw [other] at names
    cases names
    have path : pathOfKey "driver.frame_rate" = [.name "driver", .name "frame_rate"] := by
      decide +kernel
    have lower : lowercase "driver" ≠ "scripts" := by decide +kernel
    rw [path] at touches
    exact lower touches.1
  have given : [("cadence_scripts__entry", "wake"), ("CADENCE_SCRIPTS__ENTRY", "1.5"),
        ("CADENCE_DRIVER__FRAME_RATE", "30")] =
      [("cadence_scripts__entry", "wake")] ++ ("CADENCE_SCRIPTS__ENTRY", "1.5") ::
        [("CADENCE_DRIVER__FRAME_RATE", "30")] := rfl
  have sets := variable_sets_text .entry given (List.forall_mem_singleton.mpr apart) loaded
  have half : ∃ x : Number, x.toText = "1.5" := ⟨.finite false 6755399441055744 (-52) (by decide),
    by decide +kernel⟩
  exact ⟨_, loaded, sets.2.mpr (.inr (.inr (.inr (.inr ⟨by decide, half⟩))))⟩

/-- Texts that numbers do not print are replaced by what they print. -/
theorem variable_reprinted :
    (load .empty ⟨[("CADENCE_SCRIPTS__ENTRY", "007")]⟩ none).map (·.scripts.entry) = .ok "7" ∧
      (load .empty ⟨[("CADENCE_SCRIPTS__ENTRY", "Inf")]⟩ none).map (·.scripts.entry) =
        .ok "inf" := by
  decide +kernel

end Settings
end FrameScript
