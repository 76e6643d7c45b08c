/-
**Which hotkeys the report of a menu marks.**

A hotkey is to be marked where an earlier parameter or group of the program has it. The report shows
the labels of a group once more for each instance, and the hotkeys of these are in the table by
then.

* `Repeated`, `expectedMarks`: the labels whose hotkey was used before, without the instances.
* `repeatedFrom_eq`: what a table of hotkeys has to do with it.
* `hotkeyRun_shownLabels`: the instances add a mark for each of their hotkeys.
* `hotkeys_iff` — **when exactly the repeated hotkeys are marked**; `one_instance` is a label that
  is marked for itself.
-/

import Gebr.Menu.MenuReport
import Mathlib.Data.List.Flatten

namespace Gebr.Menu

section Model

variable (unicode : Unicode)

/-- The hotkey of a label was used by an earlier one, in whatever case. -/
def Repeated (earlier : List Text) (label : Text) : Prop :=
  ∃ c, Mnemonic label c ∧ ∃ other ∈ earlier, ∃ d, Mnemonic other d ∧ unicode.upper d = unicode.upper c

theorem repeated_iff {earlier : List Text} {label : Text} :
    Repeated unicode earlier label ↔ ∃ key ∈ earlier.filterMap (hotkey unicode),
    hotkey unicode label = some key := by
  unfold hotkey
  constructor
  · rintro ⟨c, names, other, member, d, names', same⟩
    refine ⟨unicode.upper c, List.mem_filterMap.2 ⟨other, member, ?_⟩, ?_⟩
    · rw [findHotkey_iff.2 names', Option.map_some, same]
    · rw [findHotkey_iff.2 names, Option.map_some]
  · rintro ⟨key, member, has⟩
    obtain ⟨other, inside, has'⟩ := List.mem_filterMap.1 member
    obtain ⟨c, found, upper⟩ := Option.map_eq_some_iff.1 has
    obtain ⟨d, found', upper'⟩ := Option.map_eq_some_iff.1 has'
    exact ⟨c, findHotkey_iff.1 found, other, inside, d, findHotkey_iff.1 found',
      upper'.trans upper.symm⟩

instance (earlier : List Text) (label : Text) : Decidable (Repeated unicode earlier label) :=
  decidable_of_iff _ (repeated_iff unicode).symm

/-- The labels of the parameters and groups of a program, each once. -/
def ownLabels (place : Place) : ℕ → List Parameter → List (Place × Text)
  | _, [] => []
  | ipar, parameter :: parameters =>
    parameterLabels { place with ipar := some ipar } parameter ++ ownLabels place (ipar + 1) parameters

/-- Where a hotkey is that was used before. -/
def repeatedFrom : List Text → List (Place × Text) → List Place
  | _, [] => []
  | earlier, (place, label) :: labels =>
    (if Repeated unicode earlier label then [place] else []) ++
      repeatedFrom (earlier ++ [label]) labels

/-- Where a hotkey is to be marked. -/
def expectedMarks (options : Options) (menu : GebrGeoXmlFlow) : List Place :=
  menu.programs.zipIdx.flatMap fun (prog, iprog) =>
    if options.params then repeatedFrom unicode []
      (ownLabels ⟨some iprog, none, none⟩ 0 prog.parameters) else []

/-- No label of a group with an instance has a hotkey. -/
def NoHotkeys (parameter : Parameter) : Prop :=
  match parameter with
  | .program _ => True
  | .group _ template instances => 0 < instances → ∀ parameter ∈ template, ∀ c,
      ¬ Mnemonic parameter.label c

end Model

section Runs

variable {unicode : Unicode} {table table' : List Text} {labels : List (Place × Text)}

theorem mem_tableAfter {key : Text} :
    key ∈ tableAfter unicode table labels ↔ key ∈ table ∨ ∃ label ∈ labels, hotkey unicode label.2 =
    some key := by
  induction labels generalizing table with
  | nil => simp [tableAfter]
  | cons first labels ih =>
    obtain ⟨place, label⟩ := first
    rw [List.exists_mem_cons_iff]
    cases has : hotkey unicode label with
    | none => rw [tableAfter_none has, ih]; simp
    | some found =>
      rw [tableAfter_some has, ih, List.mem_cons, Option.some_inj, or_assoc, or_left_comm, eq_comm]

theorem hotkeyRun_congr (same : ∀ key, key ∈ table ↔ key ∈ table') :
    hotkeyRun unicode table labels = hotkeyRun unicode table' labels := by
  induction labels generalizing table table' with
  | nil => rfl
  | cons first labels ih =>
    obtain ⟨place, label⟩ := first
    cases has : hotkey unicode label with
    | none => rw [hotkeyRun_none has, hotkeyRun_none has, ih same]
    | some found =>
      have next (key : Text) : key ∈ found :: table ↔ key ∈ found :: table' := by
        rw [List.mem_cons, List.mem_cons, same]
      rw [hotkeyRun_some has, hotkeyRun_some has, ih next, if_congr (same found) rfl rfl]

/-- **The table has the hotkeys of the earlier labels.** -/
theorem repeatedFrom_eq {earlier : List Text}
    (same : ∀ key, key ∈ table ↔ key ∈ earlier.filterMap (hotkey unicode)) :
    repeatedFrom unicode earlier labels = hotkeyRun unicode table labels := by
  induction labels generalizing table earlier with
  | nil => rfl
  | cons first labels ih =>
    obtain ⟨place, label⟩ := first
    unfold repeatedFrom
    cases has : hotkey unicode label with
    | none =>
      have fresh : ¬ Repeated unicode earlier label := by
        rw [repeated_iff]
        rintro ⟨key, -, has'⟩
        exact nomatch has.symm.trans has'
      rw [hotkeyRun_none has, if_neg fresh, List.nil_append]
      refine ih fun key => ?_
      rw [same, List.filterMap_append, List.filterMap_cons_none has, List.filterMap_nil,
        List.append_nil]
    | some found =>
      have used : Repeated unicode earlier label ↔ found ∈ table := by
        rw [repeated_iff, same]
        constructor
        · rintro ⟨key, member, has'⟩
          exact Option.some.inj (has.symm.trans has') ▸ member
        · exact fun member => ⟨found, member, has⟩
      have next (key : Text) : key ∈ found :: table ↔ key ∈ (earlier ++ [label]).filterMap
          (hotkey unicode) := by
        rw [List.filterMap_append, List.filterMap_cons_some has, List.filterMap_nil,
          List.mem_append, List.mem_singleton, List.mem_cons, same, or_comm]
      rw [hotkeyRun_some has, ih next, if_congr used rfl rfl]

theorem repeatedFrom_nil : repeatedFrom unicode [] labels = hotkeyRun unicode [] labels :=
  repeatedFrom_eq fun _ => Iff.rfl

/-- Of labels whose hotkeys are in the table each is marked that has one. -/
theorem length_hotkeyRun_known
    (known : ∀ label ∈ labels, ∀ key, hotkey unicode label.2 = some key → key ∈ table) :
    (hotkeyRun unicode table labels).length = labels.countP fun label =>
    (hotkey unicode label.2).isSome := by
  induction labels generalizing table with
  | nil => rfl
  | cons first labels ih =>
    obtain ⟨place, label⟩ := first
    have rest := fun label member => known label (List.mem_cons_of_mem _ member)
    cases has : hotkey unicode label with
    | none => rw [hotkeyRun_none has, ih rest, List.countP_cons_of_neg (by simp [has])]
    | some found =>
      have inside : found ∈ table := known _ List.mem_cons_self found has
      rw [hotkeyRun_some has, if_pos inside, List.length_append, ih fun label member key has =>
        List.mem_cons_of_mem found (rest label member key has), List.countP_cons_of_pos
          (by simp [has]),
        List.length_singleton, Nat.add_comm]

/-- Of labels that were shown before only the marks are new. -/
theorem hotkeyRun_known {more : List (Place × Text)}
    (known : ∀ label ∈ labels, ∀ key, hotkey unicode label.2 = some key → key ∈ table) :
    hotkeyRun unicode table (labels ++ more) = hotkeyRun unicode table labels ++
    hotkeyRun unicode table more := by
  have same (key : Text) : key ∈ tableAfter unicode table labels ↔ key ∈ table := by
    rw [mem_tableAfter]
    refine ⟨fun either => ?_, Or.inl⟩
    rcases either with old | ⟨label, inside, has⟩
    · exact old
    · exact known label inside key has
  rw [hotkeyRun_append, hotkeyRun_congr same]

end Runs

section Instances

variable (unicode : Unicode)

theorem exists_templateLabels {place : Place} (isubpar : ℕ) {template : List ProgramParameter}
    {parameter : ProgramParameter} (member : parameter ∈ template) :
    ∃ label ∈ templateLabels place isubpar template, label.2 = parameter.label := by
  induction template generalizing isubpar with
  | nil => exact absurd member List.not_mem_nil
  | cons first template ih =>
    unfold templateLabels
    rcases List.mem_cons.1 member with rfl | later
    · exact ⟨_, List.mem_cons_self, rfl⟩
    · obtain ⟨label, inside, same⟩ := ih (isubpar + 1) later
      exact ⟨label, List.mem_cons_of_mem _ inside, same⟩

/-- **An instance has no label of its own.** -/
theorem exists_parameterLabels {place : Place} {parameter : Parameter} {label : Place × Text}
    (member : label ∈ instanceLabels place parameter) :
    ∃ own ∈ parameterLabels place parameter, own.2 = label.2 := by
  cases parameter with
  | program parameter => exact absurd member List.not_mem_nil
  | group name template instances =>
    obtain ⟨instance_, copy, member⟩ := List.mem_flatMap.1 member
    obtain rfl := List.eq_of_mem_replicate copy
    obtain ⟨parameter, inside, rfl⟩ := List.mem_map.1 member
    obtain ⟨own, shown, same⟩ := exists_templateLabels 0 inside
    exact ⟨own, List.mem_cons_of_mem _ shown, same⟩

/-- The marks that the instances of a group add. -/
def extraMarks : Parameter → ℕ
  | .program _ => 0
  | .group _ template instances => instances * template.countP fun parameter =>
      (hotkey unicode parameter.label).isSome

def extraMarksOf : List Parameter → ℕ
  | [] => 0
  | parameter :: parameters => extraMarks unicode parameter + extraMarksOf parameters

theorem countP_instanceLabels (place : Place) (parameter : Parameter) :
    ((instanceLabels place parameter).countP fun label => (hotkey unicode label.2).isSome) =
      extraMarks unicode parameter := by
  cases parameter with
  | program parameter => rfl
  | group name template instances =>
    unfold instanceLabels extraMarks
    rw [List.countP_flatMap, List.map_replicate, List.sum_replicate_nat]
    dsimp only [Function.comp_apply]
    rw [List.countP_map]
    rfl

theorem extraMarks_eq_zero {parameter : Parameter} :
    extraMarks unicode parameter = 0 ↔ NoHotkeys parameter := by
  cases parameter with
  | program parameter => exact ⟨fun _ => trivial, fun _ => rfl⟩
  | group name template instances =>
    unfold extraMarks NoHotkeys
    dsimp only
    rw [Nat.mul_eq_zero, List.countP_eq_zero, Nat.pos_iff_ne_zero, or_iff_not_imp_left]
    refine imp_congr_right fun _ => forall₂_congr fun parameter _ => ?_
    rw [Bool.not_eq_true, Option.isSome_eq_false_iff, Option.isNone_iff_eq_none, hotkey,
      Option.map_eq_none_iff, Option.eq_none_iff_forall_not_mem]
    exact forall_congr' fun c => not_congr findHotkey_iff

theorem extraMarksOf_eq_zero {parameters : List Parameter} :
    extraMarksOf unicode parameters = 0 ↔ ∀ parameter ∈ parameters, NoHotkeys parameter := by
  induction parameters with
  | nil => exact ⟨fun _ _ member => absurd member List.not_mem_nil, fun _ => rfl⟩
  | cons parameter parameters ih =>
    rw [extraMarksOf, Nat.add_eq_zero_iff, extraMarks_eq_zero, ih, List.forall_mem_cons]

/-- **The instances add a mark for each of their hotkeys**, and change no other one. -/
theorem hotkeyRun_shownLabels (parameters : List Parameter) (table : List Text)
    (place : Place) (ipar : ℕ) : (hotkeyRun unicode table (ownLabels place ipar parameters)).Sublist
        (hotkeyRun unicode table (shownLabels place ipar parameters)) ∧
      (hotkeyRun unicode table (shownLabels place ipar parameters)).length =
        (hotkeyRun unicode table (ownLabels place ipar parameters)).length +
        extraMarksOf unicode parameters := by
  induction parameters generalizing table ipar with
  | nil => exact ⟨.refl _, rfl⟩
  | cons parameter parameters ih =>
    unfold ownLabels shownLabels
    generalize own : parameterLabels { place with ipar := some ipar } parameter = labels
    generalize again : instanceLabels { place with ipar := some ipar } parameter = copies
    have known : ∀ label ∈ copies, ∀ key, hotkey unicode label.2 = some key →
        key ∈ tableAfter unicode table labels := by
      intro label member key has
      subst own again
      obtain ⟨shown, inside, same⟩ := exists_parameterLabels member
      exact mem_tableAfter.2 (.inr ⟨shown, inside, same ▸ has⟩)
    have count : (hotkeyRun unicode (tableAfter unicode table labels) copies).length =
        extraMarks unicode parameter := by
      rw [length_hotkeyRun_known known, ← again, countP_instanceLabels]
    obtain ⟨sub, length⟩ := ih (tableAfter unicode table labels) (ipar + 1)
    rw [List.append_assoc, hotkeyRun_append, hotkeyRun_append, hotkeyRun_known known]
    refine ⟨(List.Sublist.refl _).append (sub.trans (List.sublist_append_right _ _)), ?_⟩
    rw [List.length_append, List.length_append, List.length_append, length, count, extraMarksOf]
    omega

/-- The marks of a program are the expected ones when no instance adds one. -/
theorem hotkeyRun_shownLabels_iff {parameters : List Parameter} {place : Place} :
    hotkeyRun unicode [] (shownLabels place 0 parameters) = repeatedFrom unicode []
      (ownLabels place 0 parameters) ↔ ∀ parameter ∈ parameters, NoHotkeys parameter := by
  obtain ⟨sub, length⟩ := hotkeyRun_shownLabels unicode parameters [] place 0
  rw [repeatedFrom_nil, ← extraMarksOf_eq_zero unicode]
  constructor
  · intro same
    rw [same] at length
    omega
  · intro zero
    rw [zero, Nat.add_zero] at length
    exact (sub.eq_of_length length.symm).symm

/-- Lists that are joined are the same when each is, where none can lose an entry. -/
theorem flatMap_eq_iff {α β : Type} {f g : α → List β} {l : List α}
    (sub : ∀ a ∈ l, (g a).Sublist (f a)) : l.flatMap f = l.flatMap g ↔ ∀ a ∈ l, f a = g a := by
  induction l with
  | nil => simp
  | cons a l ih =>
    have rest := fun b member => sub b (List.mem_cons_of_mem a member)
    rw [List.flatMap_cons, List.flatMap_cons, List.forall_mem_cons, ← ih rest]
    constructor
    · intro same
      have first := (sub a List.mem_cons_self).length_le
      have others := (List.Sublist.flatMap_right l rest).length_le
      have total := congrArg List.length same
      rw [List.length_append, List.length_append] at total
      exact List.append_inj same (by omega)
    · rintro ⟨first, others⟩
      rw [first, others]

end Instances

section Exactly

/-- **The repeated hotkeys are marked exactly when no instance shows one.** -/
theorem hotkeys_iff (unicode : Unicode) (options : Options) (menu : GebrGeoXmlFlow) :
    hotkeyMarks (reportMenu unicode options menu) = expectedMarks unicode options menu ↔
      (options.params = true → ∀ prog ∈ menu.programs, ∀ parameter ∈ prog.parameters,
      NoHotkeys parameter) := by
  rw [hotkeyMarks_reportMenu]
  unfold expectedMarks programMarks
  cases params : options.params with
  | false => exact ⟨fun _ on => absurd on Bool.false_ne_true, fun _ => rfl⟩
  | true =>
    have each (entry : Program × ℕ) : hotkeyRun unicode []
        (shownLabels ⟨some entry.2, none, none⟩ 0 entry.1.parameters) = repeatedFrom unicode []
          (ownLabels ⟨some entry.2, none, none⟩ 0 entry.1.parameters) ↔
            ∀ parameter ∈ entry.1.parameters, NoHotkeys parameter := hotkeyRun_shownLabels_iff unicode
    refine (flatMap_eq_iff fun entry _ => ?_).trans ?_
    · dsimp only
      rw [if_pos rfl, if_pos rfl, repeatedFrom_nil]
      exact (hotkeyRun_shownLabels unicode _ _ _ _).1
    · dsimp only
      simp only [if_pos, each, true_imp_iff]
      constructor
      · intro all prog member
        obtain ⟨iprog, inside⟩ := List.mem_iff_getElem?.1 member
        exact all (prog, iprog) (List.mem_zipIdx_iff_getElem?.2 inside)
      · exact fun all entry inside => all entry.1 (List.fst_mem_of_mem_zipIdx inside)

/-- One instance of a group is enough: the hotkey of its label is that of the template. -/
theorem one_instance :
    ¬ hotkeyMarks (reportMenu smallUnicode ⟨false, false, false, false, false, false, true, true⟩
        ⟨[], [], [], [], [], [], [], [],
          [⟨[], [], [], [], [], [],
      [.group "Files".toList [⟨"_File".toList, [], false, [], false, 0⟩] 1]⟩]⟩) =
        expectedMarks smallUnicode ⟨false, false, false, false, false, false, true, true⟩
          ⟨[], [], [], [], [], [], [], [],
          [⟨[], [], [], [], [], [],
          [.group "Files".toList [⟨"_File".toList, [], false, [], false, 0⟩] 1]⟩]⟩ := by
  decide

end Exactly

end Gebr.Menu
