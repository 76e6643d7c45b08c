/-
**The report of what may be wrong in a menu.**

Every field is checked, and what fails is marked with the checks that it fails. A hotkey is what
stands behind the first single underscore of a label; those of a program are collected in a table,
and one that is in it is marked too.

* `findHotkey`, `Mnemonic`, `findHotkey_iff`: the hotkey of a label, as it is looked for and as it
  is meant.
* `validateAppendCheck`: the checks of one field.
* `showProgramParameter`, `showParameter`, `reportProgram`, `reportMenu`: the report.
* `hotkeyRun`, `Told`: the marks of a list of labels, and what a part of the report does to them.
* `told_showParameter`, `hotkeyMarks_reportMenu` — **the marks are those of the labels that are
  shown**.

The texts without an error are left out.
-/

import Gebr.Menu.ValidateCase

namespace Gebr.Menu

section Hotkeys

/-- The loop of `validate_append_check` over the underscores of a label: the text from one on that
is not doubled. -/
def findUnderscore : Text → Option Text
  | [] => none
  | c :: rest =>
    if c ≠ '_' then findUnderscore rest
    else
      match rest with
      | [] => none
      | d :: more =>
        if d = '_' then
          match more with
          | [] => none
          | _ :: _ => findUnderscore more
        else some (c :: rest)

/-- The character behind the underscore. -/
def findHotkey (label : Text) : Option Char := (findUnderscore label).bind fun text => text[1]?

/-- A text whose underscores are all doubled. -/
inductive Literal : Text → Prop
  | empty : Literal []
  | other {c : Char} {text : Text} : c ≠ '_' → Literal text → Literal (c :: text)
  | doubled {text : Text} : Literal text → Literal ('_' :: '_' :: text)

/-- The character that a label names by the first single underscore in front of one. -/
def Mnemonic (label : Text) (c : Char) : Prop :=
  ∃ literal rest, Literal literal ∧ c ≠ '_' ∧ label = literal ++ '_' :: c :: rest

theorem findHotkey_other {c : Char} (other : c ≠ '_') (label : Text) :
    findHotkey (c :: label) = findHotkey label := by
  unfold findHotkey
  conv_lhs => unfold findUnderscore
  rw [if_pos other]

theorem findHotkey_doubled (label : Text) : findHotkey ('_' :: '_' :: label) = findHotkey label := by
  unfold findHotkey
  conv_lhs => unfold findUnderscore
  cases label with
  | nil => rfl
  | cons c label => rfl

theorem findHotkey_single {c : Char} (other : c ≠ '_') (label : Text) :
    findHotkey ('_' :: c :: label) = some c := by
  unfold findHotkey findUnderscore
  rw [if_neg (not_not.2 rfl)]
  simp [other]

/-- **What is looked for is what is meant.** -/
theorem findHotkey_iff {label : Text} {c : Char} : findHotkey label = some c ↔ Mnemonic label c := by
  constructor
  · intro found
    induction label using findUnderscore.induct with
    | case1 => exact nomatch found
    | case2 d rest other ih =>
      rw [findHotkey_other other] at found
      obtain ⟨literal, rest, doubled, single, rfl⟩ := ih found
      exact ⟨d :: literal, rest, .other other doubled, single, rfl⟩
    | case3 d is =>
      obtain rfl := not_not.1 is
      exact nomatch found
    | case4 d is =>
      obtain rfl := not_not.1 is
      rw [findHotkey_doubled] at found
      exact nomatch found
    | case5 d is e rest ih =>
      obtain rfl := not_not.1 is
      rw [findHotkey_doubled] at found
      obtain ⟨literal, behind, doubled, single, whole⟩ := ih found
      exact ⟨'_' :: '_' :: literal, behind, .doubled doubled, single, by rw [whole]; rfl⟩
    | case6 d is e rest single =>
      obtain rfl := not_not.1 is
      rw [findHotkey_single single] at found
      obtain rfl := Option.some.inj found
      exact ⟨[], rest, .empty, single, rfl⟩
  · rintro ⟨literal, rest, doubled, single, rfl⟩
    induction doubled with
    | empty => exact findHotkey_single single rest
    | other plain _ ih => exact (findHotkey_other plain _).trans ih
    | doubled _ ih => exact (findHotkey_doubled _).trans ih

end Hotkeys

section Model

/-- A parameter of a program, as the report reads it. A parameter of an instance is a reference: it
has the label and all the rest of the parameter of the template that it refers to. -/
structure ProgramParameter where
  label : Text
  keyword : Text
  isList : Bool
  separator : Text
  isEnum : Bool
  enumOptions : ℕ
  deriving DecidableEq

/-- A parameter, or a group: its label, its template and the number of its instances. -/
inductive Parameter where
  | program (parameter : ProgramParameter)
  | group (label : Text) (template : List ProgramParameter) (instances : ℕ)
  deriving DecidableEq

structure Program where
  title : Text
  description : Text
  binary : Text
  version : Text
  url : Text
  help : Text
  parameters : List Parameter

/-- A menu; the dates are those that `gebr_localized_date` gives. -/
structure GebrGeoXmlFlow where
  title : Text
  description : Text
  author : Text
  email : Text
  dateCreated : Text
  dateModified : Text
  help : Text
  categories : List Text
  programs : List Program

/-- `GebrGeoXmlValidateOptions`. -/
structure Options where
  title : Bool
  desc : Bool
  author : Bool
  dates : Bool
  category : Bool
  mhelp : Bool
  progs : Bool
  params : Bool

/-- Which program and which parameter the report is at. -/
structure Place where
  iprog : Option ℕ
  ipar : Option ℕ
  isubpar : Option ℕ
  deriving DecidableEq

/-- An error, as `append_text_error` is told of it. -/
structure Mark where
  place : Place
  flags : Finset Check
  name : CaseName
  text : Text

/-- `GebrGeoXmlValidate`. -/
structure Validate where
  place : Place
  potentialErrors : ℕ
  hotkeyTable : List Text
  marks : List Mark

variable (unicode : Unicode)

/-- `validate_append_text_error`, and the error is counted. -/
def Validate.appendTextError (self : Validate) (flags : Finset Check) (name : CaseName)
    (text : Text) : Validate :=
  { self with potentialErrors := self.potentialErrors + 1, marks := self.marks ++
    [⟨self.place, flags, name, text⟩] }

/-- The hotkey of a label, in upper case. -/
def hotkey (label : Text) : Option Text := (findHotkey label).map unicode.upper

/-- What `validate_append_check` does with the hotkey of a label; it tells whether the hotkey was
used. -/
def appendHotkey (value : Text) (name : CaseName) (self : Validate) : Validate × Bool :=
  match hotkey unicode value with
  | none => (self, false)
  | some uppercase =>
    let used := self.hotkeyTable.contains uppercase
    let self :=
      if used then
        self.appendTextError {.labelHotkey} name
          (" (Alt+".toList ++ uppercase ++ ", already used above)".toList)
      else self
    ({ self with hotkeyTable := uppercase :: self.hotkeyTable }, used)

/-- What `validate_append_check` does with the checks that failed. -/
def appendFailed (failed : Finset Check) (value : Text) (name : CaseName) (self : Validate) :
    Validate :=
  if failed = ∅ then self
  else if value ≠ [] then self.appendTextError failed name value
  else self.appendTextError {.empty} name "UNSET".toList

/-- `validate_append_check`; it gives the checks that failed. -/
def validateAppendCheck (value : Text) (flags : Finset Check) (name : CaseName) (self : Validate) :
    Validate × Finset Check :=
  let failed := flags.filter fun check => passes unicode check value = false
  let self := appendFailed failed value name self
  if .labelHotkey ∈ flags then
    let (self, used) := appendHotkey unicode value name self
    (self, if used then insert .labelHotkey failed else failed)
  else (self, failed)

/-- A field with the checks of its case. -/
def appendCheck (name : CaseName) (value : Text) (self : Validate) : Validate :=
  (validateAppendCheck unicode value (flagsOf name) name self).1

/-- The part of `show_parameter` about what a list and an enumeration miss. -/
def appendMissing (self : Validate) (parameter : ProgramParameter) : Validate :=
  let self :=
    if parameter.isList && parameter.separator.isEmpty then
      self.appendTextError ∅ .parameterKeyword " (missing entries separator)".toList
    else self
  if parameter.isEnum && parameter.enumOptions = 0 then
    self.appendTextError ∅ .parameterKeyword "\n        missing options".toList
  else self

/-- `show_parameter`, of a parameter that is no group. -/
def showProgramParameter (self : Validate) (parameter : ProgramParameter) : Validate :=
  let self := appendCheck unicode .parameterLabel parameter.label self
  let self := appendCheck unicode .parameterKeyword parameter.keyword self
  appendMissing self parameter

/-- The parameters of the template, from one on. -/
def showTemplate : Validate → ℕ → List ProgramParameter → Validate
  | self, isubpar, [] => { self with place := { self.place with isubpar := some isubpar } }
  | self, isubpar, parameter :: template =>
    showTemplate (showProgramParameter unicode
      { self with place := { self.place with isubpar := some isubpar } } parameter)
        (isubpar + 1) template

/-- `show_parameter`. The instances show the parameters of the template once more, and leave the
place. -/
def showParameter (self : Validate) : Parameter → Validate
  | .program parameter => showProgramParameter unicode self parameter
  | .group label template instances =>
    let self := appendCheck unicode .parameterLabel label self
    let self := if template = [] then self else showTemplate unicode self 0 template
    let self := (List.replicate instances template).foldl (fun self instance_ =>
      instance_.foldl (showProgramParameter unicode) self) self
    { self with place := { self.place with isubpar := none } }

/-- The parameters of a program, from one on. -/
def showParameters : Validate → ℕ → List Parameter → Validate
  | self, _, [] => { self with place := { self.place with ipar := none } }
  | self, ipar, parameter :: parameters =>
    showParameters (showParameter unicode
      { self with place := { self.place with ipar := some ipar } } parameter) (ipar + 1) parameters

/-- The part of `gebr_geoxml_validate_report_menu` about one program. -/
def reportProgram (options : Options) (self : Validate) (iprog : ℕ) (prog : Program) : Validate :=
  let self := { self with place := { self.place with iprog := some iprog } }
  let self := appendCheck unicode .programTitle prog.title self
  let self := appendCheck unicode .programDescription prog.description self
  let self := appendCheck unicode .programBinary prog.binary self
  let self := appendCheck unicode .programVersion prog.version self
  let self := appendCheck unicode .programUrl prog.url self
  let self := if prog.help ≠ [] then self else (validateAppendCheck unicode [] {.empty} .help self).1
  if options.params then showParameters unicode { self with hotkeyTable := [] } 0
    prog.parameters else self

/-- The programs of a menu, from one on. -/
def reportPrograms (options : Options) : Validate → ℕ → List Program → Validate
  | self, _, [] => self
  | self, iprog, prog :: programs =>
    reportPrograms options (reportProgram unicode options self iprog prog) (iprog + 1) programs

/-- The fields of the menu itself. -/
def reportFields (options : Options) (menu : GebrGeoXmlFlow) (self : Validate) : Validate :=
  let self := if options.title then appendCheck unicode .title menu.title self else self
  let self := if options.desc then appendCheck unicode .description menu.description self else self
  let self :=
    if options.author then appendCheck unicode .email menu.email
      (appendCheck unicode .author menu.author self) else self
  let self :=
    if options.dates then appendCheck unicode .date menu.dateModified
      (appendCheck unicode .date menu.dateCreated self)
    else self
  let self :=
    if options.mhelp && menu.help.isEmpty then
      (validateAppendCheck unicode [] {.empty} .help self).1 else self
  if options.category then
    (if menu.categories = [] then [[]] else menu.categories).foldl (fun self category =>
      appendCheck unicode .category category self) self
  else self

/-- `gebr_geoxml_validate_report_menu`. -/
def reportMenu (options : Options) (menu : GebrGeoXmlFlow) : Validate :=
  let self := reportFields unicode options menu ⟨⟨none, none, none⟩, 0, [], []⟩
  if !options.progs && !options.params then self else reportPrograms unicode options self 0
    menu.programs

end Model

section Marks

/-- Where a hotkey is marked. -/
def hotkeyMarks (self : Validate) : List Place :=
  (self.marks.filter fun mark => .labelHotkey ∈ mark.flags).map Mark.place

/-- What is marked of labels that are shown one after the other, with a table of hotkeys. -/
def hotkeyRun (unicode : Unicode) : List Text → List (Place × Text) → List Place
  | _, [] => []
  | table, (place, label) :: labels =>
    match hotkey unicode label with
    | none => hotkeyRun unicode table labels
    | some key => (if key ∈ table then [place] else []) ++ hotkeyRun unicode (key :: table) labels

/-- The table behind them. -/
def tableAfter (unicode : Unicode) : List Text → List (Place × Text) → List Text
  | table, [] => table
  | table, (_, label) :: labels =>
    match hotkey unicode label with
    | none => tableAfter unicode table labels
    | some key => tableAfter unicode (key :: table) labels

/-- A part of the report shows some labels. -/
structure Told (unicode : Unicode) (before after : Validate) (labels : List (Place × Text)) :
    Prop where
  marks : hotkeyMarks after = hotkeyMarks before ++ hotkeyRun unicode before.hotkeyTable labels
  table : after.hotkeyTable = tableAfter unicode before.hotkeyTable labels

variable {unicode : Unicode} {self next after : Validate} {labels more : List (Place × Text)}

theorem hotkeyRun_none {label : Text} (none : hotkey unicode label = none) (table : List Text)
    (place : Place) : hotkeyRun unicode table ((place, label) :: labels) =
    hotkeyRun unicode table labels := by
  conv_lhs => unfold hotkeyRun
  rw [none]

theorem hotkeyRun_some {label key : Text} (has : hotkey unicode label = some key)
    (table : List Text) (place : Place) : hotkeyRun unicode table ((place, label) :: labels) =
      (if key ∈ table then [place] else []) ++ hotkeyRun unicode (key :: table) labels := by
  conv_lhs => unfold hotkeyRun
  rw [has]

theorem tableAfter_none {label : Text} (none : hotkey unicode label = none) (table : List Text)
    (place : Place) : tableAfter unicode table ((place, label) :: labels) =
    tableAfter unicode table labels := by
  conv_lhs => unfold tableAfter
  rw [none]

theorem tableAfter_some {label key : Text} (has : hotkey unicode label = some key)
    (table : List Text) (place : Place) : tableAfter unicode table ((place, label) :: labels) =
    tableAfter unicode (key :: table) labels := by
  conv_lhs => unfold tableAfter
  rw [has]

theorem hotkeyRun_append (table : List Text) (labels more : List (Place × Text)) :
    hotkeyRun unicode table (labels ++ more) =
      hotkeyRun unicode table labels ++ hotkeyRun unicode (tableAfter unicode table labels) more := by
  induction labels generalizing table with
  | nil => rfl
  | cons first labels ih =>
    obtain ⟨place, label⟩ := first
    rw [List.cons_append]
    cases has : hotkey unicode label with
    | none => rw [hotkeyRun_none has, hotkeyRun_none has, tableAfter_none has, ih]
    | some key =>
      rw [hotkeyRun_some has, hotkeyRun_some has, tableAfter_some has, ih, List.append_assoc]

theorem tableAfter_append (table : List Text) (labels more : List (Place × Text)) :
    tableAfter unicode table (labels ++ more) = tableAfter unicode
    (tableAfter unicode table labels) more := by
  induction labels generalizing table with
  | nil => rfl
  | cons first labels ih =>
    obtain ⟨place, label⟩ := first
    rw [List.cons_append]
    cases has : hotkey unicode label with
    | none => rw [tableAfter_none has, tableAfter_none has, ih]
    | some key => rw [tableAfter_some has, tableAfter_some has, ih]

theorem Told.refl (unicode : Unicode) (self : Validate) (place : Place) :
    Told unicode self { self with place := place } [] :=
  ⟨(List.append_nil _).symm, rfl⟩

theorem Told.same (self : Validate) : Told unicode self self [] := Told.refl unicode self self.place

theorem Told.trans (first : Told unicode self next labels) (second : Told unicode next after more) :
    Told unicode self after (labels ++ more) := by
  constructor
  · rw [second.marks, first.marks, first.table, hotkeyRun_append, List.append_assoc]
  · rw [second.table, first.table, tableAfter_append]

theorem hotkeyMarks_appendTextError (self : Validate) {flags : Finset Check}
    (other : .labelHotkey ∉ flags) (name : CaseName) (text : Text) :
    hotkeyMarks (self.appendTextError flags name text) = hotkeyMarks self := by
  unfold hotkeyMarks Validate.appendTextError
  rw [List.filter_append, List.filter_cons_of_neg (by simpa using other), List.filter_nil,
    List.append_nil]

theorem told_appendTextError (self : Validate) {flags : Finset Check} (other : .labelHotkey ∉ flags)
    (name : CaseName) (text : Text) : Told unicode self (self.appendTextError flags name text) [] :=
  ⟨(hotkeyMarks_appendTextError self other name text).trans (List.append_nil _).symm, rfl⟩

@[simp] theorem appendTextError_place (self : Validate) (flags : Finset Check) (name : CaseName)
    (text : Text) : (self.appendTextError flags name text).place = self.place := rfl

theorem told_appendHotkey (unicode : Unicode) (value : Text) (name : CaseName) (self : Validate) :
    Told unicode self (appendHotkey unicode value name self).1 [(self.place, value)] := by
  unfold appendHotkey
  cases has : hotkey unicode value with
  | none =>
    refine ⟨?_, ?_⟩
    · rw [hotkeyRun_none has]
      exact (List.append_nil _).symm
    · rw [tableAfter_none has]
      rfl
  | some key =>
    refine ⟨?_, ?_⟩
    · rw [hotkeyRun_some has]
      by_cases used : key ∈ self.hotkeyTable
      · simp [used, hotkeyMarks, Validate.appendTextError, hotkeyRun]
      · simp [used, hotkeyMarks, hotkeyRun]
    · rw [tableAfter_some has]
      by_cases used : key ∈ self.hotkeyTable
      · simp [used, Validate.appendTextError, tableAfter]
      · simp [used, tableAfter]

@[simp] theorem appendHotkey_place (value : Text) (name : CaseName) (self : Validate) :
    (appendHotkey unicode value name self).1.place = self.place := by
  unfold appendHotkey
  cases hotkey unicode value with
  | none => rfl
  | some key =>
    dsimp only
    split <;> rfl

/-- The labels among the fields: those whose hotkey is checked. -/
def labelsOf (flags : Finset Check) (place : Place) (value : Text) : List (Place × Text) :=
  if .labelHotkey ∈ flags then [(place, value)] else []

theorem told_appendFailed (unicode : Unicode) {failed : Finset Check}
    (other : .labelHotkey ∉ failed) (value : Text) (name : CaseName) (self : Validate) :
    Told unicode self (appendFailed failed value name self) [] := by
  unfold appendFailed
  split
  · exact .same self
  · split
    · exact told_appendTextError self other name value
    · exact told_appendTextError self (by decide) name _

@[simp] theorem appendFailed_place (failed : Finset Check) (value : Text) (name : CaseName)
    (self : Validate) : (appendFailed failed value name self).place = self.place := by
  unfold appendFailed
  split
  · rfl
  · split <;> rfl

@[simp] theorem validateAppendCheck_place (value : Text) (flags : Finset Check) (name : CaseName)
    (self : Validate) : (validateAppendCheck unicode value flags name self).1.place = self.place := by
  unfold validateAppendCheck
  dsimp only
  split
  · rw [appendHotkey_place, appendFailed_place]
  · exact appendFailed_place _ _ _ _

/-- **The checks of one field.** -/
theorem told_validateAppendCheck (unicode : Unicode) (value : Text) (flags : Finset Check)
    (name : CaseName) (self : Validate) :
    Told unicode self (validateAppendCheck unicode value flags name self).1
    (labelsOf flags self.place value) := by
  have other : Check.labelHotkey ∉ flags.filter fun check => passes unicode check value = false := by
    rw [Finset.mem_filter]
    exact fun both => nomatch both.2
  have failed := told_appendFailed unicode other value name self
  unfold validateAppendCheck labelsOf
  dsimp only
  split
  · have labelled := told_appendHotkey unicode value name
      (appendFailed (flags.filter fun check => passes unicode check value = false) value name self)
    rw [appendFailed_place] at labelled
    exact failed.trans labelled
  · exact failed

theorem told_other (unicode : Unicode) {flags : Finset Check} (other : .labelHotkey ∉ flags)
    (value : Text) (name : CaseName) (self : Validate) :
    Told unicode self (validateAppendCheck unicode value flags name self).1 [] := by
  have told := told_validateAppendCheck unicode value flags name self
  unfold labelsOf at told
  rwa [if_neg other] at told

theorem told_label (unicode : Unicode) (value : Text) (self : Validate) :
    Told unicode self (appendCheck unicode .parameterLabel value self) [(self.place, value)] :=
  told_validateAppendCheck unicode value _ _ self

@[simp] theorem appendCheck_place (name : CaseName) (value : Text) (self : Validate) :
    (appendCheck unicode name value self).place = self.place :=
  validateAppendCheck_place _ _ _ _

end Marks

section Shown

/-- The labels of a template, from one parameter on. -/
def templateLabels (place : Place) : ℕ → List ProgramParameter → List (Place × Text)
  | _, [] => []
  | isubpar, parameter :: template =>
    ({ place with isubpar := some isubpar }, parameter.label) :: templateLabels place
      (isubpar + 1) template

/-- The labels of a parameter: that of a group, and those of its template. -/
def parameterLabels (place : Place) : Parameter → List (Place × Text)
  | .program parameter => [(place, parameter.label)]
  | .group label template _ => (place, label) :: templateLabels place 0 template

/-- The labels of the instances of a group, which are shown behind its template. -/
def instanceLabels (place : Place) : Parameter → List (Place × Text)
  | .program _ => []
  | .group _ template instances =>
    (List.replicate instances template).flatMap fun instance_ => instance_.map fun parameter =>
      ({ place with isubpar := if template = [] then none else some template.length }, parameter.label)

theorem templateLabels_place (place : Place) (subpar : Option ℕ) (isubpar : ℕ)
    (template : List ProgramParameter) :
    templateLabels { place with isubpar := subpar } isubpar template =
    templateLabels place isubpar template := by
  induction template generalizing isubpar with
  | nil => rfl
  | cons parameter template ih =>
    unfold templateLabels
    rw [ih]

variable (unicode : Unicode)

/-- What the report of a parameter shows, and where it is afterwards. -/
theorem told_showProgramParameter (self : Validate) (parameter : ProgramParameter) :
    Told unicode self (showProgramParameter unicode self parameter) [(self.place, parameter.label)] ∧
      (showProgramParameter unicode self parameter).place = self.place := by
  have error (before : Validate) (wrong : Prop) [Decidable wrong] (text : Text) :
      Told unicode before
          (if wrong then before.appendTextError ∅ .parameterKeyword text else before) [] := by
    split
    · exact told_appendTextError before (by decide) _ _
    · exact .same before
  unfold showProgramParameter appendMissing
  constructor
  · have other : Check.labelHotkey ∉ flagsOf .parameterKeyword := by decide
    have label := told_label unicode parameter.label self
    have keyword := told_other unicode other parameter.keyword .parameterKeyword
      (appendCheck unicode .parameterLabel parameter.label self)
    exact ((label.trans keyword).trans (error _ _ _)).trans (error _ _ _)
  · dsimp only
    split <;> split <;> simp

theorem told_showTemplate (template : List ProgramParameter) (self : Validate) (isubpar : ℕ) :
    Told unicode self (showTemplate unicode self isubpar template)
      (templateLabels self.place isubpar template) ∧
        (showTemplate unicode self isubpar template).place =
        { self.place with isubpar := some (isubpar + template.length) } := by
  induction template generalizing self isubpar with
  | nil => exact ⟨.refl unicode self _, rfl⟩
  | cons parameter template ih =>
    have moved := Told.refl unicode self { self.place with isubpar := some isubpar }
    obtain ⟨shown, stays⟩ := told_showProgramParameter unicode
      { self with place := { self.place with isubpar := some isubpar } } parameter
    obtain ⟨rest, ends⟩ := ih (showProgramParameter unicode
      { self with place := { self.place with isubpar := some isubpar } } parameter) (isubpar + 1)
    rw [stays] at rest ends
    rw [templateLabels_place] at rest
    refine ⟨(moved.trans shown).trans rest, ends.trans ?_⟩
    rw [List.length_cons, Nat.add_assoc, Nat.add_comm 1]

/-- An instance shows its parameters in one place. -/
theorem told_showInstance (instance_ : List ProgramParameter) (self : Validate) :
    Told unicode self (instance_.foldl (showProgramParameter unicode) self)
        (instance_.map fun parameter => (self.place, parameter.label)) ∧
      (instance_.foldl (showProgramParameter unicode) self).place = self.place := by
  induction instance_ generalizing self with
  | nil => exact ⟨.same self, rfl⟩
  | cons parameter instance_ ih =>
    obtain ⟨shown, stays⟩ := told_showProgramParameter unicode self parameter
    obtain ⟨rest, ends⟩ := ih (showProgramParameter unicode self parameter)
    rw [stays] at rest ends
    exact ⟨shown.trans rest, ends⟩

theorem told_showInstances (instances : List (List ProgramParameter)) (self : Validate) :
    Told unicode self
        (instances.foldl (fun self instance_ => instance_.foldl (showProgramParameter unicode) self)
        self) (instances.flatMap fun instance_ => instance_.map fun parameter =>
      (self.place, parameter.label)) ∧
        (instances.foldl (fun self instance_ => instance_.foldl (showProgramParameter unicode) self)
        self).place = self.place := by
  induction instances generalizing self with
  | nil => exact ⟨.same self, rfl⟩
  | cons instance_ instances ih =>
    obtain ⟨shown, stays⟩ := told_showInstance unicode instance_ self
    obtain ⟨rest, ends⟩ := ih (instance_.foldl (showProgramParameter unicode) self)
    rw [stays] at rest ends
    exact ⟨shown.trans rest, ends⟩

/-- **A parameter shows its labels**, and then those of its instances. -/
theorem told_showParameter (parameter : Parameter) (self : Validate)
    (outside : self.place.isubpar = none) : Told unicode self (showParameter unicode self parameter)
        (parameterLabels self.place parameter ++ instanceLabels self.place parameter) ∧
      (showParameter unicode self parameter).place = self.place := by
  cases parameter with
  | program parameter =>
    obtain ⟨shown, stays⟩ := told_showProgramParameter unicode self parameter
    exact ⟨shown, stays⟩
  | group label template instances =>
    have whole : { self.place with isubpar := none } = self.place := by rw [← outside]
    have labelled := told_label unicode label self
    have stays : (appendCheck unicode .parameterLabel label self).place = self.place :=
      appendCheck_place _ _ _
    unfold showParameter
    dsimp only
    generalize appendCheck unicode .parameterLabel label self = next at labelled stays ⊢
    have templated : Told unicode next
          (if template = [] then next else showTemplate unicode next 0 template)
            (templateLabels self.place 0 template) ∧
        (if template = [] then next else showTemplate unicode next 0 template).place =
          { self.place with isubpar := if template = [] then none else some template.length } := by
      by_cases empty : template = []
      · rw [if_pos empty, if_pos empty, empty, whole]
        exact ⟨.same next, stays⟩
      · obtain ⟨shown, ends⟩ := told_showTemplate unicode template next 0
        rw [if_neg empty, if_neg empty, ends, stays, Nat.zero_add]
        exact ⟨stays ▸ shown, rfl⟩
    generalize (if template = [] then next else showTemplate unicode next 0 template) =
      behind at templated ⊢
    obtain ⟨shown, ends⟩ := templated
    obtain ⟨instances_, last⟩ := told_showInstances unicode (List.replicate instances template) behind
    rw [ends] at instances_ last
    refine ⟨?_, ?_⟩
    · have all := (labelled.trans shown).trans instances_
      exact ⟨all.marks, all.table⟩
    · rw [last]
      exact whole

/-- The labels of the parameters of a program that are shown. -/
def shownLabels (place : Place) : ℕ → List Parameter → List (Place × Text)
  | _, [] => []
  | ipar, parameter :: parameters =>
    parameterLabels { place with ipar := some ipar } parameter ++
      instanceLabels { place with ipar := some ipar } parameter ++ shownLabels place
        (ipar + 1) parameters

theorem shownLabels_place (place : Place) (par : Option ℕ) (ipar : ℕ) (parameters : List Parameter) :
    shownLabels { place with ipar := par } ipar parameters = shownLabels place ipar parameters := by
  induction parameters generalizing ipar with
  | nil => rfl
  | cons parameter parameters ih =>
    unfold shownLabels
    rw [ih]

theorem told_showParameters (parameters : List Parameter) (self : Validate) (ipar : ℕ)
    (outside : self.place.isubpar = none) :
    Told unicode self (showParameters unicode self ipar parameters)
      (shownLabels self.place ipar parameters) ∧
      (showParameters unicode self ipar parameters).place = { self.place with ipar := none } := by
  induction parameters generalizing self ipar with
  | nil => exact ⟨.refl unicode self _, rfl⟩
  | cons parameter parameters ih =>
    have moved := Told.refl unicode self { self.place with ipar := some ipar }
    obtain ⟨shown, stays⟩ := told_showParameter unicode parameter
      { self with place := { self.place with ipar := some ipar } } outside
    have inside : (showParameter unicode
        { self with place := { self.place with ipar := some ipar } } parameter).place.isubpar =
          none := by rw [stays]; exact outside
    obtain ⟨rest, ends⟩ := ih _ (ipar + 1) inside
    rw [stays] at rest ends
    rw [shownLabels_place] at rest
    exact ⟨(moved.trans shown).trans rest, ends⟩

end Shown

section Programs

/-- A part of the report that marks no hotkey, and stays where it is. -/
structure Quiet (before after : Validate) : Prop where
  marks : hotkeyMarks after = hotkeyMarks before
  place : after.place = before.place

theorem Quiet.refl (self : Validate) : Quiet self self := ⟨rfl, rfl⟩

theorem Quiet.trans {self next after : Validate} (first : Quiet self next)
    (second : Quiet next after) : Quiet self after :=
  ⟨second.marks.trans first.marks, second.place.trans first.place⟩

theorem Quiet.step {self next : Validate} {part : Validate → Validate} {p : Prop} [Decidable p]
    (quiet : ∀ self, Quiet self (part self)) (before : Quiet self next) :
    Quiet self (if p then part next else next) := by
  split
  · exact before.trans (quiet next)
  · exact before

variable (unicode : Unicode)

theorem quiet_validateAppendCheck {flags : Finset Check} (other : .labelHotkey ∉ flags)
    (value : Text) (name : CaseName) (self : Validate) :
    Quiet self (validateAppendCheck unicode value flags name self).1 :=
  ⟨(told_other unicode other value name self).marks.trans (List.append_nil _),
    validateAppendCheck_place _ _ _ _⟩

/-- Only a label has a hotkey that is checked. -/
theorem quiet_appendCheck {name : CaseName} (other : name ≠ .parameterLabel) (value : Text)
    (self : Validate) : Quiet self (appendCheck unicode name value self) := by
  have none : .labelHotkey ∉ flagsOf name := by
    revert other
    cases name <;> decide
  exact quiet_validateAppendCheck unicode none value name self

theorem quiet_help (self : Validate) :
    Quiet self (validateAppendCheck unicode [] {.empty} .help self).1 :=
  quiet_validateAppendCheck unicode (by decide) [] .help self

/-- The fields of a menu itself have no hotkeys. -/
theorem quiet_reportFields (options : Options) (menu : GebrGeoXmlFlow) (self : Validate) :
    Quiet self (reportFields unicode options menu self) := by
  have title : ∀ self, Quiet self (appendCheck unicode .title menu.title self) :=
    quiet_appendCheck unicode (by decide) _
  have desc : ∀ self, Quiet self (appendCheck unicode .description menu.description self) :=
    quiet_appendCheck unicode (by decide) _
  have author : ∀ self, Quiet self
      (appendCheck unicode .email menu.email (appendCheck unicode .author menu.author self)) :=
          fun self =>
    (quiet_appendCheck unicode (by decide) _ self).trans (quiet_appendCheck unicode (by decide) _ _)
  have dates : ∀ self, Quiet self
      (appendCheck unicode .date menu.dateModified
          (appendCheck unicode .date menu.dateCreated self)) := fun self =>
    (quiet_appendCheck unicode (by decide) _ self).trans (quiet_appendCheck unicode (by decide) _ _)
  have categories (values : List Text) (self : Validate) :
      Quiet self (values.foldl (fun self category => appendCheck unicode .category category self)
          self) := by
    induction values generalizing self with
    | nil => exact .refl self
    | cons category values ih =>
      exact (quiet_appendCheck unicode (by decide) category self).trans (ih _)
  exact Quiet.step (categories _) (Quiet.step (quiet_help unicode) (Quiet.step dates (Quiet.step author
    (Quiet.step desc (Quiet.step title (Quiet.refl self))))))

/-- The hotkeys of a program that are marked. -/
def programMarks (options : Options) (iprog : ℕ) (prog : Program) : List Place :=
  if options.params then hotkeyRun unicode []
    (shownLabels ⟨some iprog, none, none⟩ 0 prog.parameters) else []

/-- The report is at no parameter. -/
def Outside (self : Validate) : Prop := self.place.ipar = none ∧ self.place.isubpar = none

/-- The fields of a program, without its parameters. -/
theorem quiet_reportProgram (prog : Program) (self : Validate) :
    Quiet self
      (let self := appendCheck unicode .programTitle prog.title self
        let self := appendCheck unicode .programDescription prog.description self
        let self := appendCheck unicode .programBinary prog.binary self
        let self := appendCheck unicode .programVersion prog.version self
        let self := appendCheck unicode .programUrl prog.url self
        if prog.help ≠ [] then self else (validateAppendCheck unicode [] {.empty} .help self).1) := by
  have field (name : CaseName) (other : name ≠ .parameterLabel) (value : Text) {next : Validate}
      (before : Quiet self next) : Quiet self (appendCheck unicode name value next) :=
    before.trans (quiet_appendCheck unicode other value next)
  have fields := field .programUrl (by decide) prog.url (field .programVersion (by decide) prog.version
    (field .programBinary (by decide) prog.binary
      (field .programDescription (by decide) prog.description
        (field .programTitle (by decide) prog.title (.refl self)))))
  dsimp only
  split
  · exact fields
  · exact fields.trans (quiet_help unicode _)

theorem hotkeyMarks_reportProgram (options : Options) (prog : Program) (iprog : ℕ) {self : Validate}
    (outside : Outside self) :
    hotkeyMarks (reportProgram unicode options self iprog prog) =
        hotkeyMarks self ++ programMarks unicode options iprog prog ∧
      Outside (reportProgram unicode options self iprog prog) := by
  have quiet := quiet_reportProgram unicode prog
      { self with place := { self.place with iprog := some iprog } }
  unfold reportProgram
  dsimp only at quiet ⊢
  generalize (if prog.help ≠ [] then _ else _ : Validate) = fields at quiet ⊢
  have place : fields.place = ⟨some iprog, none, none⟩ := by
    rw [quiet.place, outside.1, outside.2]
  unfold programMarks
  by_cases params : options.params = true
  · obtain ⟨told, ends⟩ := told_showParameters unicode prog.parameters
      { fields with hotkeyTable := [] } 0 (by rw [place])
    rw [if_pos params, if_pos params]
    refine ⟨?_, ?_⟩
    · refine told.marks.trans ?_
      dsimp only
      rw [place]
      exact congrArg (· ++ _) quiet.marks
    · rw [Outside, ends, place]
      exact ⟨rfl, rfl⟩
  · rw [if_neg params, if_neg params, List.append_nil]
    refine ⟨quiet.marks, ?_⟩
    rw [Outside, place]
    exact ⟨rfl, rfl⟩

theorem hotkeyMarks_reportPrograms (options : Options) (programs : List Program) (iprog : ℕ)
    {self : Validate} (outside : Outside self) :
    hotkeyMarks (reportPrograms unicode options self iprog programs) =
      hotkeyMarks self ++
        (programs.zipIdx iprog).flatMap fun (prog, iprog) =>
        programMarks unicode options iprog prog := by
  induction programs generalizing self iprog with
  | nil => exact (List.append_nil _).symm
  | cons prog programs ih =>
    obtain ⟨marks, still⟩ := hotkeyMarks_reportProgram unicode options prog iprog outside
    unfold reportPrograms
    rw [ih (iprog + 1) still, marks, List.zipIdx_cons, List.flatMap_cons, List.append_assoc]

/-- **The marks of a menu are those of its programs.** -/
theorem hotkeyMarks_reportMenu (options : Options) (menu : GebrGeoXmlFlow) :
    hotkeyMarks (reportMenu unicode options menu) =
      menu.programs.zipIdx.flatMap fun (prog, iprog) => programMarks unicode options iprog prog := by
  have fields := quiet_reportFields unicode options menu ⟨⟨none, none, none⟩, 0, [], []⟩
  have outside : Outside (reportFields unicode options menu ⟨⟨none, none, none⟩, 0, [], []⟩) := by
    rw [Outside, fields.place]
    exact ⟨rfl, rfl⟩
  unfold reportMenu
  dsimp only
  split
  · rename_i neither
    have none : options.params = false := by simpa using ((Bool.and_eq_true_iff.1 neither).2)
    have silent : ∀ entry ∈ menu.programs.zipIdx, programMarks unicode options entry.2 entry.1 =
        [] := by
      intro entry _
      unfold programMarks
      rw [none, if_neg Bool.false_ne_true]
    rw [fields.marks]
    exact (List.flatMap_eq_nil_iff.2 silent).symm
  · rw [hotkeyMarks_reportPrograms unicode options menu.programs 0 outside, fields.marks]
    rfl

end Programs

end Gebr.Menu
