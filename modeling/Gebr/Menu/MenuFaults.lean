/-
**The errors that the report of a menu counts.**

Each part of the report checks some fields and some parameters. No error is counted where all of the
fields pass, where the parameters are complete and where no hotkey is marked.

* `mem_validateAppendCheck`: the faults that the report finds in a field.
* `MenuField`, `menuFields`: the fields that are checked.
* `Counted`: what a part of the report does to the number of errors.
* `potentialErrors_eq_zero_iff` — **when a menu is reported valid**.
-/

import Gebr.Menu.MenuReport

namespace Gebr.Menu

section Faults

variable {unicode : Unicode} {value : Text} {name : CaseName} {self : Validate}

/-- The hotkey of a label was used, as the table says. -/
theorem appendHotkey_used (name : CaseName) :
    (appendHotkey unicode value name self).2 = true ↔
      ∃ key, hotkey unicode value = some key ∧ key ∈ self.hotkeyTable := by
  unfold appendHotkey
  cases hotkey unicode value with
  | none => simp
  | some key => simp

theorem appendFailed_hotkeyTable (failed : Finset Check) :
    (appendFailed failed value name self).hotkeyTable = self.hotkeyTable := by
  unfold appendFailed
  split
  · rfl
  · split <;> rfl

/-- **The faults that the report finds.** -/
theorem mem_validateAppendCheck {flags : Finset Check} {check : Check} :
    check ∈ (validateAppendCheck unicode value flags name self).2 ↔
      check ∈ flags ∧ (passes unicode check value = false ∨
        check = .labelHotkey ∧ ∃ key, hotkey unicode value = some key ∧ key ∈ self.hotkeyTable) := by
  unfold validateAppendCheck
  dsimp only
  rw [and_or_left, ← Finset.mem_filter (p := fun check => passes unicode check value = false)]
  split
  · rename_i labelled
    rw [← appendFailed_hotkeyTable (flags.filter fun check => passes unicode check value = false),
      ← appendHotkey_used name]
    split
    · rename_i used
      rw [Finset.mem_insert, or_comm]
      refine or_congr_right ⟨?_, ?_⟩
      · rintro rfl
        exact ⟨labelled, rfl, used⟩
      · exact fun both => both.2.1
    · rename_i unused
      exact ⟨Or.inl, fun either => either.resolve_right fun both => unused both.2.2⟩
  · rename_i other
    exact ⟨Or.inl, fun either => either.resolve_right fun both => other (both.2.1 ▸ both.1)⟩

theorem potentialErrors_appendFailed (failed : Finset Check) :
    (appendFailed failed value name self).potentialErrors =
      if failed = ∅ then self.potentialErrors else self.potentialErrors + 1 := by
  unfold appendFailed
  split
  · rfl
  · split <;> rfl

theorem potentialErrors_appendHotkey (unicode : Unicode) (value : Text) (name : CaseName)
    (self : Validate) : (appendHotkey unicode value name self).1.potentialErrors =
      if (appendHotkey unicode value name self).2 then self.potentialErrors +
      1 else self.potentialErrors := by
  unfold appendHotkey
  cases hotkey unicode value with
  | none => rfl
  | some key =>
    dsimp only
    split <;> rfl

theorem le_potentialErrors {flags : Finset Check} :
    self.potentialErrors ≤ (validateAppendCheck unicode value flags name self).1.potentialErrors := by
  unfold validateAppendCheck
  dsimp only
  split
  · dsimp only
    rw [potentialErrors_appendHotkey, potentialErrors_appendFailed]
    split_ifs <;> omega
  · rw [potentialErrors_appendFailed]
    split_ifs <;> omega

/-- An error is counted where the report finds a fault. -/
theorem potentialErrors_validateAppendCheck {flags : Finset Check} :
    (validateAppendCheck unicode value flags name self).1.potentialErrors = self.potentialErrors ↔
      (validateAppendCheck unicode value flags name self).2 = ∅ := by
  unfold validateAppendCheck
  dsimp only
  split
  · dsimp only
    rw [potentialErrors_appendHotkey, potentialErrors_appendFailed]
    split
    · simp only [Finset.insert_ne_empty, iff_false]
      split <;> omega
    · split
      · simp [*]
      · simp [*]
  · rw [potentialErrors_appendFailed]
    split
    · simp [*]
    · simp [*]

end Faults

section Fields

/-- A text, and the case that it is checked for. -/
abbrev MenuField : Type := CaseName × Text

/-- A field passes the checks of its case. -/
def FieldFine (unicode : Unicode) (field : MenuField) : Prop :=
  ∀ check ∈ flagsOf field.1, passes unicode check field.2 = true

/-- A list has a separator, and an enumeration has options. -/
def ProgramParameter.Complete (parameter : ProgramParameter) : Prop :=
  (parameter.isList = true → parameter.separator ≠ []) ∧
    (parameter.isEnum = true → parameter.enumOptions ≠ 0)

def ProgramParameter.fields (parameter : ProgramParameter) : List MenuField :=
  [(.parameterLabel, parameter.label), (.parameterKeyword, parameter.keyword)]

/-- A parameter itself, or those of the template of a group. -/
def Parameter.own : Parameter → List ProgramParameter
  | .program parameter => [parameter]
  | .group _ template _ => template

/-- The fields of a parameter, and those of the template of a group. -/
def Parameter.fields : Parameter → List MenuField
  | .program parameter => parameter.fields
  | .group label template _ => (.parameterLabel, label) :: template.flatMap ProgramParameter.fields

/-- The fields of a program that are checked. -/
def programFields (options : Options) (prog : Program) : List MenuField :=
  [(.programTitle, prog.title), (.programDescription, prog.description), (.programBinary, prog.binary),
      (.programVersion, prog.version), (.programUrl, prog.url), (.help, prog.help)] ++
    if options.params then prog.parameters.flatMap Parameter.fields else []

/-- The parameters of a program that are checked. -/
def programParameters (options : Options) (prog : Program) : List ProgramParameter :=
  if options.params then prog.parameters.flatMap Parameter.own else []

/-- The programs of a menu that are checked. -/
def shownPrograms (options : Options) (menu : GebrGeoXmlFlow) : List Program :=
  if options.progs || options.params then menu.programs else []

/-- The categories of a menu; without any an empty one is shown. -/
def shownCategories (menu : GebrGeoXmlFlow) : List Text :=
  if menu.categories = [] then [[]] else menu.categories

/-- The fields of a menu itself that are checked. -/
def ownFields (options : Options) (menu : GebrGeoXmlFlow) : List MenuField :=
  (if options.title then [(.title, menu.title)] else []) ++
    (if options.desc then [(.description, menu.description)] else []) ++
    (if options.author then [(.author, menu.author), (.email, menu.email)] else []) ++
    (if options.dates then [(.date, menu.dateCreated), (.date, menu.dateModified)] else []) ++
    (if options.mhelp then [(.help, menu.help)] else []) ++
    if options.category then (shownCategories menu).map fun category => (.category, category) else []

/-- The fields that are checked. -/
def menuFields (options : Options) (menu : GebrGeoXmlFlow) : List MenuField :=
  ownFields options menu ++ (shownPrograms options menu).flatMap (programFields options)

end Fields

section Counting

variable (unicode : Unicode)

/-- A part of the report checks some fields and some parameters. -/
structure Counted (before after : Validate) (fields : List MenuField)
    (parameters : List ProgramParameter) : Prop where
  more : before.potentialErrors ≤ after.potentialErrors
  marks : hotkeyMarks before <+: hotkeyMarks after
  same : after.potentialErrors = before.potentialErrors ↔
    (∀ field ∈ fields, FieldFine unicode field) ∧ (∀ parameter ∈ parameters, parameter.Complete) ∧
      hotkeyMarks after = hotkeyMarks before

variable {unicode} {self next after : Validate} {fields otherFields : List MenuField}
  {parameters otherParameters : List ProgramParameter}

theorem Counted.nothing (errors : after.potentialErrors = self.potentialErrors)
    (marks : hotkeyMarks after = hotkeyMarks self) : Counted unicode self after [] [] :=
  ⟨errors.ge, marks ▸ List.prefix_refl _, fun _ => ⟨nofun, nofun, marks⟩, fun _ => errors⟩

theorem Counted.refl (self : Validate) : Counted unicode self self [] [] := .nothing rfl rfl

theorem Counted.trans (first : Counted unicode self next fields parameters)
    (second : Counted unicode next after otherFields otherParameters) :
    Counted unicode self after (fields ++ otherFields) (parameters ++ otherParameters) := by
  have errors : after.potentialErrors = self.potentialErrors ↔
      next.potentialErrors = self.potentialErrors ∧ after.potentialErrors = next.potentialErrors := by
    have low := first.more
    have high := second.more
    omega
  have marks : hotkeyMarks after = hotkeyMarks self ↔
      hotkeyMarks next = hotkeyMarks self ∧ hotkeyMarks after = hotkeyMarks next := by
    refine ⟨fun same => ?_, fun both => both.2.trans both.1⟩
    have back : hotkeyMarks next <+: hotkeyMarks self := same ▸ second.marks
    have middle := back.eq_of_length_le first.marks.length_le
    exact ⟨middle, same.trans middle.symm⟩
  refine ⟨first.more.trans second.more, first.marks.trans second.marks, ?_⟩
  rw [errors, marks, first.same, second.same, List.forall_mem_append, List.forall_mem_append]
  tauto

/-- **A field** is counted where it fails a check, and where its hotkey is marked. -/
theorem counted_field (name : CaseName) (value : Text) (self : Validate) :
    Counted unicode self (validateAppendCheck unicode value (flagsOf name) name self).1
    [(name, value)] [] := by
  have marks := (told_validateAppendCheck unicode value (flagsOf name) name self).marks
  refine ⟨le_potentialErrors, ⟨_, marks.symm⟩, ?_⟩
  have unmarked : hotkeyRun unicode self.hotkeyTable (labelsOf (flagsOf name) self.place value) = [] ↔
      ¬ (.labelHotkey ∈ flagsOf name ∧ ∃ key, hotkey unicode value = some key ∧
          key ∈ self.hotkeyTable) := by
    unfold labelsOf
    split
    · rename_i listed
      cases has : hotkey unicode value with
      | none =>
        rw [hotkeyRun_none has]
        simp [hotkeyRun]
      | some key =>
        rw [hotkeyRun_some has]
        simp [hotkeyRun, listed]
    · rename_i other
      exact ⟨fun _ both => other both.1, fun _ => rfl⟩
  rw [potentialErrors_validateAppendCheck, marks, List.append_right_eq_self, unmarked,
    Finset.eq_empty_iff_forall_notMem]
  simp only [mem_validateAppendCheck, List.mem_singleton, forall_eq, List.not_mem_nil,
    false_imp_iff, implies_true, true_and, FieldFine]
  constructor
  · intro none
    refine ⟨fun check listed => ?_, fun used => none .labelHotkey ⟨used.1, .inr ⟨rfl, used.2⟩⟩⟩
    cases passed : passes unicode check value with
    | true => rfl
    | false => exact absurd ⟨listed, .inl passed⟩ (none check)
  · rintro ⟨fine, unused⟩ check ⟨listed, failed | ⟨rfl, used⟩⟩
    · exact Bool.false_ne_true (failed.symm.trans (fine check listed))
    · exact unused ⟨listed, used⟩

/-- **What a parameter misses** is counted. -/
theorem counted_appendMissing (self : Validate) (parameter : ProgramParameter) :
    Counted unicode self (appendMissing self parameter) [] [parameter] := by
  have marks : hotkeyMarks (appendMissing self parameter) = hotkeyMarks self := by
    have silent (before : Validate) (text : Text) :
        hotkeyMarks (before.appendTextError ∅ .parameterKeyword text) = hotkeyMarks before :=
      hotkeyMarks_appendTextError before (by decide) _ _
    unfold appendMissing
    dsimp only
    split_ifs <;> simp only [silent]
  have errors : (appendMissing self parameter).potentialErrors = self.potentialErrors +
      (if parameter.isList && parameter.separator.isEmpty then 1 else 0) +
      if parameter.isEnum && parameter.enumOptions = 0 then 1 else 0 := by
    unfold appendMissing
    dsimp only
    split_ifs <;> rfl
  have complete : parameter.Complete ↔ (parameter.isList && parameter.separator.isEmpty) = false ∧
      (parameter.isEnum && decide (parameter.enumOptions = 0)) = false := by
    unfold ProgramParameter.Complete
    simp
  refine ⟨by omega, marks ▸ List.prefix_refl _, ?_⟩
  rw [errors, marks, List.forall_mem_singleton, complete]
  generalize (parameter.isList && parameter.separator.isEmpty) = list
  generalize (parameter.isEnum && decide (parameter.enumOptions = 0)) = enum
  cases list <;> cases enum <;> simp [Nat.add_assoc]

theorem counted_showProgramParameter (self : Validate) (parameter : ProgramParameter) :
    Counted unicode self (showProgramParameter unicode self parameter) parameter.fields [parameter] :=
  have label := counted_field .parameterLabel parameter.label self
  have keyword := label.trans (counted_field .parameterKeyword parameter.keyword _)
  keyword.trans (counted_appendMissing _ parameter)

theorem counted_foldl {α : Type} {part : Validate → α → Validate} {fields : α → List MenuField}
    {parameters : α → List ProgramParameter}
    (each : ∀ self a, Counted unicode self (part self a) (fields a) (parameters a))
    (entries : List α) (self : Validate) :
    Counted unicode self (entries.foldl part self) (entries.flatMap fields)
    (entries.flatMap parameters) := by
  induction entries generalizing self with
  | nil => exact .refl self
  | cons entry entries ih => exact (each self entry).trans (ih _)

/-- A part that checks again what was checked. -/
theorem Counted.again (first : Counted unicode self next fields parameters)
    (second : Counted unicode next after otherFields otherParameters) (known : otherFields ⊆ fields)
    (others : otherParameters ⊆ parameters) : Counted unicode self after fields parameters := by
  have both := first.trans second
  refine ⟨both.more, both.marks, both.same.trans ?_⟩
  rw [List.forall_mem_append, List.forall_mem_append]
  refine and_congr (and_iff_left_of_imp fun fine field member => fine field (known member))
    (and_congr_left' ?_)
  exact and_iff_left_of_imp fun complete parameter member => complete parameter (others member)

theorem Counted.moved (counted : Counted unicode self next fields parameters) (place : Place) :
    Counted unicode self { next with place := place } fields parameters :=
  ⟨counted.more, counted.marks, counted.same⟩

theorem counted_move (self : Validate) (place : Place) :
    Counted unicode self { self with place := place } [] [] :=
  .nothing rfl rfl

theorem counted_showTemplate (template : List ProgramParameter) (self : Validate) (isubpar : ℕ) :
    Counted unicode self (showTemplate unicode self isubpar template)
      (template.flatMap ProgramParameter.fields) template := by
  induction template generalizing self isubpar with
  | nil => exact counted_move self _
  | cons parameter template ih =>
    exact ((counted_move self _).trans (counted_showProgramParameter _ parameter)).trans (ih _ _)

/-- **A parameter**; the instances of a group have no fields of their own. -/
theorem counted_showParameter (self : Validate) (parameter : Parameter) :
    Counted unicode self (showParameter unicode self parameter) parameter.fields parameter.own := by
  cases parameter with
  | program parameter => exact counted_showProgramParameter self parameter
  | group label template instances =>
    have labelled : Counted unicode self (appendCheck unicode .parameterLabel label self) _ _ :=
      counted_field _ _ _
    unfold showParameter
    dsimp only
    generalize appendCheck unicode .parameterLabel label self = next at labelled ⊢
    have templated : Counted unicode next
        (if template = [] then next else showTemplate unicode next 0 template)
            (template.flatMap ProgramParameter.fields) template := by
      split
      · rename_i empty
        rw [empty]
        exact .refl next
      · exact counted_showTemplate template next 0
    generalize (if template = [] then next else showTemplate unicode next 0 template) =
      behind at templated ⊢
    have one (self : Validate) (instance_ : List ProgramParameter) :
        Counted unicode self (instance_.foldl (showProgramParameter unicode) self) _ _ :=
      counted_foldl counted_showProgramParameter instance_ self
    have again := templated.again (counted_foldl one (List.replicate instances template) behind) ?_ ?_
    · exact (labelled.trans again).moved _
    · intro field member
      obtain ⟨instance_, copy, inside⟩ := List.mem_flatMap.1 member
      exact List.eq_of_mem_replicate copy ▸ inside
    · intro parameter member
      obtain ⟨instance_, copy, inside⟩ := List.mem_flatMap.1 member
      obtain ⟨other, inside, same⟩ := List.mem_flatMap.1 inside
      exact List.mem_singleton.1 same ▸ List.eq_of_mem_replicate copy ▸ inside

theorem counted_showParameters (parameters : List Parameter) (self : Validate) (ipar : ℕ) :
    Counted unicode self (showParameters unicode self ipar parameters)
      (parameters.flatMap Parameter.fields) (parameters.flatMap Parameter.own) := by
  induction parameters generalizing self ipar with
  | nil => exact counted_move self _
  | cons parameter parameters ih =>
    exact ((counted_move self _).trans (counted_showParameter _ parameter)).trans (ih _ _)

theorem counted_help (help : Text) (self : Validate) :
    Counted unicode self
      (if help ≠ [] then self else (validateAppendCheck unicode [] {.empty} .help self).1)
      [(.help, help)] [] := by
  split
  · rename_i some_item
    refine ⟨le_rfl, List.prefix_refl _, fun _ => ⟨?_, nofun, rfl⟩, fun _ => rfl⟩
    simp [FieldFine, flagsOf, passes, checkIsNotEmpty, some_item]
  · rename_i empty
    rw [not_not.1 empty]
    exact counted_field .help [] self

end Counting

section Menus

variable (unicode : Unicode)

theorem counted_reportProgram (options : Options) (prog : Program) (self : Validate) (iprog : ℕ) :
    Counted unicode self (reportProgram unicode options self iprog prog) (programFields options prog)
      (programParameters options prog) := by
  have field (name : CaseName) (value : Text) (self : Validate) :
      Counted unicode self (appendCheck unicode name value self) [(name, value)] [] :=
        counted_field name value self
  have moved : Counted unicode self { self with place := { self.place with iprog := some iprog } }
      [] [] :=
    counted_move self _
  have fields := (((((moved.trans (field .programTitle prog.title _)).trans
    (field .programDescription prog.description _)).trans (field .programBinary prog.binary _)).trans
    (field .programVersion prog.version _)).trans (field .programUrl prog.url _)).trans
      (counted_help prog.help _)
  unfold reportProgram programFields programParameters
  dsimp only
  generalize (if prog.help ≠ [] then _ else _ : Validate) = behind at fields ⊢
  by_cases params : options.params = true
  · rw [if_pos params, if_pos params, if_pos params]
    have emptied : Counted unicode behind { behind with hotkeyTable := [] } [] [] := .nothing rfl rfl
    exact fields.trans (emptied.trans (counted_showParameters _ _ _))
  · rw [if_neg params, if_neg params, if_neg params]
    exact fields

theorem counted_reportPrograms (options : Options) (programs : List Program) (self : Validate)
    (iprog : ℕ) : Counted unicode self (reportPrograms unicode options self iprog programs)
      (programs.flatMap (programFields options)) (programs.flatMap (programParameters options)) := by
  induction programs generalizing self iprog with
  | nil => exact .refl self
  | cons prog programs ih =>
    exact (counted_reportProgram unicode options prog self iprog).trans (ih _ _)

theorem Counted.part {unicode : Unicode} {self next : Validate} {part : Validate → Validate}
    {fields more : List MenuField} {p : Prop} [Decidable p]
    (before : Counted unicode self next fields [])
    (counted : ∀ self, Counted unicode self (part self) more []) :
    Counted unicode self (if p then part next else next) (fields ++ if p then more else []) [] := by
  split
  · exact before.trans (counted next)
  · rwa [List.append_nil]

theorem counted_reportFields (options : Options) (menu : GebrGeoXmlFlow) (self : Validate) :
    Counted unicode self (reportFields unicode options menu self) (ownFields options menu) [] := by
  have field (name : CaseName) (value : Text) (self : Validate) :
      Counted unicode self (appendCheck unicode name value self) [(name, value)] [] :=
        counted_field name value self
  have pair (name other : CaseName) (value text : Text) (self : Validate) : Counted unicode self
      (appendCheck unicode other text (appendCheck unicode name value self))
          [(name, value), (other, text)] [] :=
    (field name value self).trans (field other text _)
  have categories (self : Validate) : Counted unicode self
      ((shownCategories menu).foldl
        (fun self category => appendCheck unicode .category category self) self)
      ((shownCategories menu).map fun category => (.category, category)) [] := by
    have each (self : Validate) (category : Text) :
        Counted unicode self (appendCheck unicode .category category self) [(.category, category)]
            [] :=
      field .category category self
    have none : (shownCategories menu).flatMap (fun _ => ([] : List ProgramParameter)) = [] :=
      List.flatMap_eq_nil_iff.2 fun _ _ => rfl
    rw [List.map_eq_flatMap, ← none]
    exact counted_foldl each (shownCategories menu) self
  have help (self : Validate) : Counted unicode self
      (if options.mhelp && menu.help.isEmpty then
        (validateAppendCheck unicode [] {.empty} .help self).1 else self)
      (if options.mhelp then [(.help, menu.help)] else []) [] := by
    have counted : Counted unicode self _ _ _ := counted_help menu.help self
    generalize menu.help = text at counted ⊢
    cases options.mhelp with
    | false => exact .refl self
    | true =>
      cases text with
      | nil => exact counted
      | cons c text => exact counted
  have title : Counted unicode self _ _ [] := (Counted.refl self).part (p := options.title)
    (field .title menu.title)
  have desc := title.part (p := options.desc) (field .description menu.description)
  have author := desc.part (p := options.author) (pair .author .email menu.author menu.email)
  have dates := author.part (p := options.dates) (pair .date .date menu.dateCreated menu.dateModified)
  exact (dates.trans (help _)).part categories

/-- **A menu is reported valid** where its fields pass, its parameters are complete and no hotkey is
marked. -/
theorem potentialErrors_eq_zero_iff (options : Options) (menu : GebrGeoXmlFlow) :
    (reportMenu unicode options menu).potentialErrors = 0 ↔
      (∀ field ∈ menuFields options menu, FieldFine unicode field) ∧
        (∀ prog ∈ shownPrograms options menu, ∀ parameter ∈ programParameters options prog,
        parameter.Complete) ∧ hotkeyMarks (reportMenu unicode options menu) = [] := by
  have counted : Counted unicode ⟨⟨none, none, none⟩, 0, [], []⟩ (reportMenu unicode options menu)
      (menuFields options menu)
          ((shownPrograms options menu).flatMap (programParameters options)) := by
    have fields := counted_reportFields unicode options menu ⟨⟨none, none, none⟩, 0, [], []⟩
    unfold reportMenu menuFields shownPrograms
    dsimp only
    rw [← Bool.not_or]
    by_cases shown : (options.progs || options.params) = true
    · rw [if_pos shown, shown, if_neg (by decide)]
      exact fields.trans (counted_reportPrograms unicode options menu.programs _ 0)
    · rw [if_neg shown, Bool.eq_false_of_not_eq_true shown, if_pos (by decide), List.flatMap_nil,
        List.flatMap_nil, List.append_nil]
      exact fields
  rw [← List.forall_mem_flatMap]
  exact counted.same

end Menus

end Gebr.Menu
