/-
**The keywords of old dictionaries made names of variables.**

`gebr_geoxml_document_canonize_dict_parameters` goes over the dictionary of a project, then over
those of its lines and flows. One table, which each project starts anew, has the name that each
keyword got, so that a keyword gets the same name in all of them; names that would meet in one
document are numbered apart.

* `gebrStrCanonicalVarName`: the name of a keyword; `canonical_named`: it is made of the right
  letters.
* `canonizeLoop_names`: the names of a document are those that the table has and, numbered apart
  from each other alone, those of its new keywords.
* `run_canonized_iff` — **over any documents** the names are valid, distinct in each document and
  the same in all, just when none of these two kinds of names meet.
* `names_meet`: two keywords of a flow with one name.
-/

import Gebr.Geoxml.DictSplit
import Gebr.Lib.FreshNames
import Gebr.Lib.Run
import Mathlib.Logic.Function.Basic

namespace Gebr.Geoxml.Canonize

open Gebr.Lib
open Gebr.Lib.CString

section Model

/-- A letter in lower case, a digit or an underscore. -/
def isNameByte (b : UInt8) : Bool := (97 ≤ b && b ≤ 122) || (48 ≤ b && b ≤ 57) || b = 95

def isLower (b : UInt8) : Bool := 97 ≤ b && b ≤ 122

/-- `g_strcanon` with the letters of names. -/
def gStrcanon (substitutor : UInt8) (str : Text) : Text :=
  str.map fun b => if isNameByte b then b else substitutor

/-- `gebr_str_canonical_var_name`; `strdown` is `g_utf8_strdown`. -/
def gebrStrCanonicalVarName (strdown : Text → Text) (keyword : Text) : Text :=
  let str := gStrcanon 95 (gStrstrip (gStrcanon 32 (strdown keyword)))
  match str with
  | [] => ascii "var_"
  | b :: _ => if isLower b then str else ascii "var_" ++ str

def reservedWords : List Text :=
  ["ibase", "last", "obase", "scale", "length", "read", "sqrt", "break", "continue", "else",
    "for", "halt", "if", "return", "while", "auto", "define", "limits", "print", "quit", "void",
      "warranty"].map ascii

/-- `gebr_expr_is_name_valid`. -/
def gebrExprIsNameValid (name : Text) : Bool :=
  match name with
  | [] => false
  | b :: rest => isLower b && rest.all isNameByte && !reservedWords.contains name

/-- `%s_%d`. -/
def numberedName (name : Text) (j : ℕ) : Text := name ++ 95 :: decimal j

/-- A parameter of a dictionary. -/
structure DictParameter where
  keyword : Text
  type : GebrGeoXmlParameterType
  required : Bool
  deriving DecidableEq, Repr

/-- `vars_list`: the name that each keyword got. -/
abbrev VarsList : Type := Text → Option Text

variable (strdown : Text → Text)

/-- One turn of the loop, without what it does to the type and to `required`: the keyword that the
parameter gets. `valuesToCanonized` has the names that this document has added, each with its
keyword. -/
def canonizeKey (varsList : VarsList) (valuesToCanonized : List (Text × Text)) (key : Text) :
    VarsList × List (Text × Text) × Text :=
  if gStrstrip key = [] then (varsList, valuesToCanonized, key)
  else
    let newValue := gebrStrCanonicalVarName strdown key
    match varsList key with
    | some duplicatedKey => (varsList, valuesToCanonized, duplicatedKey)
    | none =>
      match valuesToCanonized.lookup newValue with
      | none =>
        (Function.update varsList key (some newValue), (newValue, key) :: valuesToCanonized, newValue)
      | some duplicatedKey =>
        if key = duplicatedKey then
          (Function.update varsList key (some newValue), valuesToCanonized, newValue)
        else
          let names := valuesToCanonized.map Prod.fst
          let concat := firstFree names (numberedName newValue) names.length 1
          (Function.update varsList key (some concat), (concat, key) :: valuesToCanonized, concat)

/-- What the loop does to every parameter: a string stays one, anything else is a real number. -/
def DictParameter.retyped (parameter : DictParameter) : DictParameter :=
  { parameter with
    type := if parameter.type = .string then .string else .float
    required := if parameter.type = .flag then parameter.required else true }

/-- The loop over the parameters; each is given back with its original keyword. -/
def canonizeLoop (varsList : VarsList) (valuesToCanonized : List (Text × Text)) :
    List DictParameter → VarsList × List (Text × DictParameter)
  | [] => (varsList, [])
  | parameter :: parameters =>
    let (varsList, valuesToCanonized, keyword) :=
      canonizeKey strdown varsList valuesToCanonized parameter.keyword
    let (varsList, canonized) := canonizeLoop varsList valuesToCanonized parameters
    (varsList, (parameter.keyword, { parameter.retyped with keyword := keyword }) :: canonized)

inductive DocumentType where
  | flow
  | line
  | project
  deriving DecidableEq, Repr

/-- A document by its dictionary, in which no keyword is twice. -/
structure Document where
  type : DocumentType
  parameters : List DictParameter
  distinct : (parameters.map DictParameter.keyword).Nodup

def Document.keys (document : Document) : List Text := document.parameters.map DictParameter.keyword

/-- The table, and the documents that were canonised with it. -/
structure Canonized where
  varsList : VarsList
  documents : List (List (Text × DictParameter))

/-- Nothing was canonised yet. -/
def canonizedNew : Canonized := ⟨fun _ => none, []⟩

/-- A project starts the table anew. -/
def Canonized.opened (document : Document) (self : Canonized) : Canonized :=
  if document.type = .project then canonizedNew else self

/-- `gebr_geoxml_document_canonize_dict_parameters`. -/
def canonizeDictParameters (document : Document) (self : Canonized) : Canonized :=
  let self := self.opened document
  let (varsList, canonized) := canonizeLoop strdown self.varsList [] document.parameters
  ⟨varsList, self.documents ++ [canonized]⟩

/-- **One document after another.** -/
def step (self : Canonized) (document : Document) : Option Canonized :=
  some (canonizeDictParameters strdown document self)

end Model

section Property

variable (strdown : Text → Text)

/-- **What the names are to be**: valid, distinct in each document, those of the table, and the same
for the same keyword. -/
structure Named (canonized : Canonized) : Prop where
  valid : ∀ document ∈ canonized.documents, ∀ entry ∈ document,
    gebrExprIsNameValid entry.2.keyword = true
  apart : ∀ document ∈ canonized.documents, (document.map fun entry => entry.2.keyword).Nodup
  mapped : ∀ document ∈ canonized.documents, ∀ entry ∈ document,
    canonized.varsList entry.1 = some entry.2.keyword
  same : ∀ document ∈ canonized.documents, ∀ document' ∈ canonized.documents,
    ∀ entry ∈ document, ∀ entry' ∈ document', entry.1 = entry'.1 → entry.2.keyword = entry'.2.keyword

/-- The names of the keywords that the table has. -/
def knownNames (varsList : VarsList) (keys : List Text) : List Text := keys.filterMap varsList

/-- The canonical names of the other ones. -/
def newNames (varsList : VarsList) (keys : List Text) : List Text :=
  (keys.filter fun key => varsList key = none).map (gebrStrCanonicalVarName strdown)

/-- **The names do not meet**: no keyword is blank and none gives a reserved word; the keywords that
the table has already have different names there, and none of these is used when the other ones are
numbered apart from each other. -/
structure Separate (varsList : VarsList) (keys : List Text) : Prop where
  solid : ∀ key ∈ keys, gStrstrip key ≠ []
  unreserved : ∀ name ∈ newNames strdown varsList keys, name ∉ reservedWords
  known : (knownNames varsList keys).Nodup
  new : ∀ name ∈ knownNames varsList keys,
    name ∉ numbered numberedName [] (newNames strdown varsList keys)

end Property

section Names

variable {strdown : Text → Text} {name key : Text}

/-- What `g_strcanon` has gone over with an underscore is made of the right bytes. -/
theorem gStrcanon_bytes (str : Text) : ∀ b ∈ gStrcanon 95 str, isNameByte b = true := by
  intro b member
  obtain ⟨a, -, rfl⟩ := List.mem_map.1 member
  split
  · assumption
  · decide

/-- A letter in lower case, and then letters in lower case, digits and underscores. -/
def Spelled (name : Text) : Prop :=
  ∃ b rest, name = b :: rest ∧ isLower b = true ∧ ∀ c ∈ rest, isNameByte c = true

/-- **The canonical name is spelled right.** -/
theorem canonical_spelled (strdown : Text → Text) (key : Text) :
    Spelled (gebrStrCanonicalVarName strdown key) := by
  have prefixed : ∀ str : Text, (∀ b ∈ str, isNameByte b = true) → Spelled (ascii "var_" ++ str) := by
    intro str all
    refine ⟨118, 97 :: 114 :: 95 :: str, rfl, by decide, ?_⟩
    intro c member
    simp only [List.mem_cons] at member
    rcases member with rfl | rfl | rfl | later
    · decide
    · decide
    · decide
    · exact all c later
  unfold gebrStrCanonicalVarName
  dsimp only
  have all := gStrcanon_bytes (gStrstrip (gStrcanon 32 (strdown key)))
  generalize gStrcanon 95 (gStrstrip (gStrcanon 32 (strdown key))) = str at all ⊢
  cases str with
  | nil => exact prefixed [] fun _ absent => absurd absent List.not_mem_nil
  | cons b rest =>
    dsimp only
    split
    · rename_i lower
      exact ⟨b, rest, rfl, lower, fun c member => all c (List.mem_cons_of_mem _ member)⟩
    · exact prefixed _ all

theorem valid_iff : gebrExprIsNameValid name = true ↔ Spelled name ∧ name ∉ reservedWords := by
  unfold gebrExprIsNameValid Spelled
  cases name with
  | nil =>
    exact iff_of_false Bool.false_ne_true
      (fun both => by obtain ⟨⟨_, _, same, -⟩, -⟩ := both; cases same)
  | cons b rest =>
    dsimp only
    rw [Bool.and_eq_true, Bool.and_eq_true, Bool.not_eq_true', List.all_eq_true,
      ← Bool.not_eq_true, List.contains_iff_mem]
    refine and_congr_left fun _ => ?_
    constructor
    · exact fun spelled => ⟨b, rest, rfl, spelled⟩
    · rintro ⟨_, _, same, spelled⟩
      cases same
      exact spelled

theorem no_underscore : ∀ word ∈ reservedWords, (95 : UInt8) ∉ word := by decide

/-- **A numbered name is valid**: an underscore is in no reserved word. -/
theorem numberedName_valid (spelled : Spelled name) (j : ℕ) :
    gebrExprIsNameValid (numberedName name j) = true := by
  obtain ⟨b, rest, rfl, lower, all⟩ := spelled
  refine valid_iff.2 ⟨⟨b, rest ++ 95 :: decimal j, rfl, lower, ?_⟩, fun reserved => ?_⟩
  · intro c member
    rcases List.mem_append.1 member with front | back
    · exact all c front
    · rcases List.mem_cons.1 back with rfl | digit
      · decide
      · have digit := isDigit_of_mem_decimal digit
        unfold isDigit at digit
        rw [isNameByte, digit, Bool.or_true, Bool.true_or]
  · refine no_underscore _ reserved ?_
    exact List.mem_append_right _ List.mem_cons_self

theorem numberedName_injective (name : Text) : Function.Injective (numberedName name) := by
  intro i j same
  have digits : decimal i = decimal j := (List.cons.inj (List.append_cancel_left same)).2
  rw [← value_decimal i, digits, value_decimal]

theorem not_valid_of_blank (blank : gStrstrip key = []) : gebrExprIsNameValid key ≠ true := by
  intro valid
  obtain ⟨⟨b, rest, rfl, lower, -⟩, -⟩ := valid_iff.1 valid
  have visible : gAsciiIsspace b = false ∧ b ≠ 0 := by
    unfold isLower at lower
    rw [Bool.and_eq_true, decide_eq_true_eq, decide_eq_true_eq] at lower
    unfold gAsciiIsspace
    simp only [Bool.or_eq_false_iff, decide_eq_false_iff_not]
    refine ⟨⟨⟨⟨⟨?_, ?_⟩, ?_⟩, ?_⟩, ?_⟩, ?_⟩ <;> rintro rfl <;> exact absurd lower.1 (by decide)
  have begins : ((b :: rest).takeWhile fun b => b ≠ 0) = b :: rest.takeWhile fun b => b ≠ 0 :=
    List.takeWhile_cons_of_pos (decide_eq_true visible.2)
  unfold gStrstrip at blank
  rw [begins, List.dropWhile_cons_of_neg (by rw [visible.1]; exact Bool.false_ne_true),
    List.rdropWhile_eq_nil_iff] at blank
  exact absurd (blank b List.mem_cons_self) (by rw [visible.1]; exact Bool.false_ne_true)

end Names

section Loop

variable {strdown : Text → Text} {varsList : VarsList} {values : List (Text × Text)} {key : Text}

theorem canonizeKey_blank (blank : gStrstrip key = []) :
    canonizeKey strdown varsList values key = (varsList, values, key) := by
  rw [canonizeKey, if_pos blank]

theorem canonizeKey_known (solid : gStrstrip key ≠ []) {name : Text}
    (known : varsList key = some name) :
    canonizeKey strdown varsList values key = (varsList, values, name) := by
  rw [canonizeKey, if_neg solid]
  dsimp only
  rw [known]

/-- **A new keyword** gets its canonical name, numbered apart from what this document has added. -/
theorem canonizeKey_new (solid : gStrstrip key ≠ []) (new : varsList key = none)
    (listed : ∀ value ∈ values, varsList value.2 ≠ none) :
    ∃ given, canonizeKey strdown varsList values key =
        (Function.update varsList key (some given), (given, key) :: values, given) ∧
      ∀ names, numbered numberedName (values.map Prod.fst)
          (gebrStrCanonicalVarName strdown key :: names) =
        given :: numbered numberedName (given :: values.map Prod.fst) names := by
  rw [canonizeKey, if_neg solid]
  dsimp only
  rw [new]
  dsimp only
  cases found : values.lookup (gebrStrCanonicalVarName strdown key) with
  | none =>
    have absent : gebrStrCanonicalVarName strdown key ∉ values.map Prod.fst := by
      intro member
      obtain ⟨value, there, same⟩ := List.mem_map.1 member
      have other := List.lookup_eq_none_iff.1 found value there
      rw [same] at other
      exact absurd other (by simp)
    refine ⟨_, rfl, fun names => ?_⟩
    rw [numbered, if_neg absent]
  | some duplicatedKey =>
    obtain ⟨front, back, rfl, -⟩ := List.lookup_eq_some_iff.1 found
    have there : (gebrStrCanonicalVarName strdown key, duplicatedKey) ∈
        front ++ (gebrStrCanonicalVarName strdown key, duplicatedKey) :: back :=
      List.mem_append_right _ List.mem_cons_self
    have other : key ≠ duplicatedKey := by
      rintro rfl
      exact listed _ there new
    dsimp only
    rw [if_neg other]
    refine ⟨_, rfl, fun names => ?_⟩
    rw [numbered, if_pos (List.mem_map.2 ⟨_, there, rfl⟩)]

/-- The names of the tail do not depend on what the head has added to the table. -/
theorem names_update {keys : List Text} (fresh : key ∉ keys) (given : Text) :
    knownNames (Function.update varsList key (some given)) keys = knownNames varsList keys ∧
      newNames strdown (Function.update varsList key (some given)) keys =
        newNames strdown varsList keys := by
  have same : ∀ other ∈ keys, Function.update varsList key (some given) other = varsList other := by
    rintro other member
    rw [Function.update_of_ne]
    rintro rfl
    exact fresh member
  constructor
  · exact List.filterMap_congr same
  · unfold newNames
    congr 1
    refine List.filter_congr fun other member => ?_
    rw [same other member]

/-- What the loop is about: the parameters have different keywords, none of them blank, and what the
document has added is in the table. -/
structure Looping (varsList : VarsList) (values : List (Text × Text))
    (parameters : List DictParameter) : Prop where
  distinct : (parameters.map DictParameter.keyword).Nodup
  solid : ∀ parameter ∈ parameters, gStrstrip parameter.keyword ≠ []
  listed : ∀ value ∈ values, varsList value.2 ≠ none

/-- **The names of a document**: those that the table has, and, numbered apart from what the
document has added, the canonical names of the new keywords. -/
theorem canonizeLoop_names {parameters : List DictParameter}
    (looping : Looping varsList values parameters) :
    ((canonizeLoop strdown varsList values parameters).2.map fun entry => entry.2.keyword).Perm
      (knownNames varsList (parameters.map DictParameter.keyword) ++
        numbered numberedName (values.map Prod.fst)
          (newNames strdown varsList (parameters.map DictParameter.keyword))) := by
  induction parameters generalizing varsList values with
  | nil => exact List.Perm.refl _
  | cons parameter parameters ih =>
    obtain ⟨fresh, distinct⟩ := List.nodup_cons.1 looping.distinct
    have solid := looping.solid parameter List.mem_cons_self
    have rest := fun other member => looping.solid other (List.mem_cons_of_mem _ member)
    cases known : varsList parameter.keyword with
    | some name =>
      have tail := ih ⟨distinct, rest, looping.listed⟩
      unfold canonizeLoop
      rw [canonizeKey_known solid known]
      dsimp only
      unfold knownNames newNames at tail ⊢
      rw [List.map_cons, List.map_cons, List.filterMap_cons_some known,
        List.filter_cons_of_neg (by rw [known]; simp), List.cons_append]
      exact tail.cons name
    | none =>
      obtain ⟨given, turn, apart⟩ := @canonizeKey_new strdown _ _ _ solid known looping.listed
      unfold canonizeLoop
      rw [turn]
      dsimp only
      have listed : ∀ value ∈ (given, parameter.keyword) :: values,
          Function.update varsList parameter.keyword (some given) value.2 ≠ none := by
        intro value member
        by_cases same : value.2 = parameter.keyword
        · rw [same, Function.update_self]
          exact Option.some_ne_none _
        · rw [Function.update_of_ne same]
          rcases List.mem_cons.1 member with rfl | before
          · exact absurd rfl same
          · exact looping.listed value before
      have tail := ih ⟨distinct, rest, listed⟩
      have names := @names_update strdown varsList _ _ fresh given
      rw [names.1, names.2] at tail
      have head : newNames strdown varsList ((parameter :: parameters).map DictParameter.keyword) =
          gebrStrCanonicalVarName strdown parameter.keyword ::
            newNames strdown varsList (parameters.map DictParameter.keyword) := by
        unfold newNames
        rw [List.map_cons, List.filter_cons_of_pos (by rw [known]; rfl), List.map_cons]
      rw [head, apart, List.map_cons, List.map_cons, knownNames,
        List.filterMap_cons_none known]
      exact (tail.cons given).trans List.perm_middle.symm

/-- What the table has it keeps, and it has the name that the keyword got, unless that one is
blank. -/
theorem canonizeKey_table (strdown : Text → Text) (varsList : VarsList) (values : List (Text × Text))
    (key : Text) :
    let result := canonizeKey strdown varsList values key
    (∀ other name, varsList other = some name → result.1 other = some name) ∧
      (gStrstrip key ≠ [] → result.1 key = some result.2.2) ∧
      ∀ other name, result.1 other = some name →
        varsList other = some name ∨ other = key ∧ name = result.2.2 := by
  dsimp only
  have updated : varsList key = none → ∀ given,
      (∀ other name, varsList other = some name →
        Function.update varsList key (some given) other = some name) ∧
      (gStrstrip key ≠ [] → Function.update varsList key (some given) key = some given) ∧
      ∀ other name, Function.update varsList key (some given) other = some name →
        varsList other = some name ∨ other = key ∧ name = given := by
    intro new given
    refine ⟨fun other name known => ?_, fun _ => Function.update_self _ _ _, fun other name has => ?_⟩
    · rw [Function.update_of_ne, known]
      rintro rfl
      rw [new] at known
      cases known
    · by_cases same : other = key
      · rw [same, Function.update_self] at has
        exact Or.inr ⟨same, (Option.some.inj has).symm⟩
      · rw [Function.update_of_ne same] at has
        exact Or.inl has
  unfold canonizeKey
  split
  · rename_i blank
    exact ⟨fun _ _ => id, fun solid => absurd blank solid, fun _ _ => Or.inl⟩
  · dsimp only
    split
    · rename_i known
      exact ⟨fun _ _ => id, fun _ => known, fun _ _ => Or.inl⟩
    · rename_i new
      split
      · exact updated new _
      · split
        · exact updated new _
        · exact updated new _

/-- **The table after the loop**: what it had it has, and it has the name of each keyword. -/
theorem canonizeLoop_table (strdown : Text → Text) (varsList : VarsList) (values : List (Text × Text))
    (parameters : List DictParameter) :
    let result := canonizeLoop strdown varsList values parameters
    (∀ key name, varsList key = some name → result.1 key = some name) ∧
      (∀ entry ∈ result.2, gStrstrip entry.1 ≠ [] → result.1 entry.1 = some entry.2.keyword) ∧
      ∀ key name, result.1 key = some name →
        varsList key = some name ∨ ∃ entry ∈ result.2, name = entry.2.keyword := by
  induction parameters generalizing varsList values with
  | nil => exact ⟨fun _ _ => id, nofun, fun _ _ => Or.inl⟩
  | cons parameter parameters ih =>
    dsimp only at ih ⊢
    unfold canonizeLoop
    dsimp only
    obtain ⟨keeps, maps, stems⟩ := canonizeKey_table strdown varsList values parameter.keyword
    generalize canonizeKey strdown varsList values parameter.keyword = turn at keeps maps stems ⊢
    obtain ⟨varsList', values', keyword⟩ := turn
    obtain ⟨keepsLoop, mapsLoop, stemsLoop⟩ := ih varsList' values'
    refine ⟨fun key name known => keepsLoop key name (keeps key name known), ?_, ?_⟩
    · intro entry member solid
      rcases List.mem_cons.1 member with rfl | later
      · exact keepsLoop _ _ (maps solid)
      · exact mapsLoop entry later solid
    · intro key name has
      rcases stemsLoop key name has with before | ⟨entry, later, rfl⟩
      · rcases stems key name before with before | ⟨-, rfl⟩
        · exact Or.inl before
        · exact Or.inr ⟨_, List.mem_cons_self, rfl⟩
      · exact Or.inr ⟨entry, List.mem_cons_of_mem _ later, rfl⟩

/-- The loop goes over the parameters one by one, and passes by a blank keyword. -/
theorem canonizeLoop_keys (strdown : Text → Text) (varsList : VarsList) (values : List (Text × Text))
    (parameters : List DictParameter) :
    let result := canonizeLoop strdown varsList values parameters
    result.2.map Prod.fst = parameters.map DictParameter.keyword ∧
      ∀ entry ∈ result.2, gStrstrip entry.1 = [] → entry.2.keyword = entry.1 := by
  induction parameters generalizing varsList values with
  | nil => exact ⟨rfl, nofun⟩
  | cons parameter parameters ih =>
    dsimp only at ih ⊢
    unfold canonizeLoop
    dsimp only
    obtain ⟨keys, blanks⟩ := ih (canonizeKey strdown varsList values parameter.keyword).1
      (canonizeKey strdown varsList values parameter.keyword).2.1
    refine ⟨?_, fun entry member blank => ?_⟩
    · rw [List.map_cons, List.map_cons, keys]
    · rcases List.mem_cons.1 member with rfl | later
      · dsimp only at blank ⊢
        rw [canonizeKey_blank blank]
      · exact blanks entry later blank

end Loop

section Runs

variable {strdown : Text → Text} {self next : Canonized} {document : Document}

/-- **The invariant**: the names are as they are to be, and so is every name of the table. -/
structure Tabled (canonized : Canonized) : Prop where
  named : Named canonized
  valid : ∀ key name, canonized.varsList key = some name → gebrExprIsNameValid name = true

theorem tabled_new : Tabled canonizedNew where
  named := ⟨nofun, nofun, nofun, nofun⟩
  valid _ _ := nofun

theorem Tabled.opened (tabled : Tabled self) (document : Document) :
    Tabled (self.opened document) := by
  unfold Canonized.opened
  split
  · exact tabled_new
  · exact tabled

theorem Separate.looping (separate : Separate strdown self.varsList document.keys) :
    Looping self.varsList [] document.parameters :=
  ⟨document.distinct, fun _ member => separate.solid _ (List.mem_map_of_mem member), nofun⟩

/-- **Names that do not meet** keep the invariant. -/
theorem Tabled.canonize (tabled : Tabled self)
    (separate : Separate strdown (self.opened document).varsList document.keys) :
    Tabled (canonizeDictParameters strdown document self) := by
  unfold canonizeDictParameters
  have opened := tabled.opened document
  generalize self.opened document = before at separate opened ⊢
  dsimp only
  obtain ⟨keeps, maps, stems⟩ := canonizeLoop_table strdown before.varsList [] document.parameters
  obtain ⟨keys, -⟩ := canonizeLoop_keys strdown before.varsList [] document.parameters
  have names := @canonizeLoop_names strdown _ _ _ separate.looping
  generalize canonizeLoop strdown before.varsList [] document.parameters = result
    at keeps maps stems keys names ⊢
  obtain ⟨varsList, canonized⟩ := result
  dsimp only at keeps maps stems keys names ⊢
  have valid : ∀ entry ∈ canonized, gebrExprIsNameValid entry.2.keyword = true := by
    intro entry member
    have name := names.subset (List.mem_map_of_mem member)
    rcases List.mem_append.1 name with known | new
    · obtain ⟨key, -, has⟩ := List.mem_filterMap.1 known
      exact opened.valid key _ has
    · obtain ⟨name, there, origin⟩ := numbered_origin new
      have unreserved := separate.unreserved name there
      obtain ⟨key, -, rfl⟩ := List.mem_map.1 there
      have spelled := canonical_spelled strdown key
      rcases origin with same | ⟨j, same⟩
      · rw [same]
        exact valid_iff.2 ⟨spelled, unreserved⟩
      · rw [same]
        exact numberedName_valid spelled j
  have solid : ∀ entry ∈ canonized, gStrstrip entry.1 ≠ [] := by
    intro entry member
    refine separate.solid entry.1 ?_
    rw [Document.keys, ← keys]
    exact List.mem_map_of_mem member
  have mapped : ∀ document ∈ before.documents ++ [canonized], ∀ entry ∈ document,
      varsList entry.1 = some entry.2.keyword := by
    intro other there entry member
    rcases List.mem_append.1 there with old | new
    · exact keeps _ _ (opened.named.mapped other old entry member)
    · obtain rfl := List.mem_singleton.1 new
      exact maps entry member (solid entry member)
  refine ⟨⟨?_, ?_, mapped, ?_⟩, fun key name has => ?_⟩
  · intro other there entry member
    rcases List.mem_append.1 there with old | new
    · exact opened.named.valid other old entry member
    · obtain rfl := List.mem_singleton.1 new
      exact valid entry member
  · intro other there
    rcases List.mem_append.1 there with old | new
    · exact opened.named.apart other old
    · obtain rfl := List.mem_singleton.1 new
      refine names.nodup_iff.2 (List.nodup_append.2 ⟨separate.known, ?_, ?_⟩)
      · exact numbered_nodup numberedName_injective _ _
      · rintro name known _ new rfl
        exact separate.new name known new
  · intro other there other' there' entry member entry' member' same
    have first := mapped other there entry member
    rw [same, mapped other' there' entry' member'] at first
    exact (Option.some.inj first).symm
  · rcases stems key name has with before | ⟨entry, member, rfl⟩
    · exact opened.valid key name before
    · exact valid entry member

/-- **Names that are as they are to be** did not meet. -/
theorem separate_of_named (named : Named (canonizeDictParameters strdown document self)) :
    Separate strdown (self.opened document).varsList document.keys := by
  unfold canonizeDictParameters at named
  generalize self.opened document = before at named ⊢
  dsimp only at named
  have last : (canonizeLoop strdown before.varsList [] document.parameters).2 ∈ before.documents ++
      [(canonizeLoop strdown before.varsList [] document.parameters).2] :=
    List.mem_append_right _ List.mem_cons_self
  have valid := named.valid _ last
  have apart := named.apart _ last
  obtain ⟨keys, blanks⟩ := canonizeLoop_keys strdown before.varsList [] document.parameters
  have solid : ∀ key ∈ document.keys, gStrstrip key ≠ [] := by
    intro key member blank
    rw [Document.keys, ← keys] at member
    obtain ⟨entry, there, rfl⟩ := List.mem_map.1 member
    refine not_valid_of_blank blank ?_
    rw [← blanks entry there blank]
    exact valid entry there
  have looping : Looping before.varsList [] document.parameters :=
    ⟨document.distinct, fun _ member => solid _ (List.mem_map_of_mem member), nofun⟩
  have names := @canonizeLoop_names strdown _ _ _ looping
  obtain ⟨known, -, disjoint⟩ := List.nodup_append.1 (names.nodup_iff.1 apart)
  refine ⟨solid, fun name new => ?_, known, fun name there new => disjoint name there name new rfl⟩
  -- the name is in use, by the keyword itself or by one before it
  rcases @mem_numbered_of_mem _ _ [] numberedName _ _ new with absent | used
  · exact absurd absent List.not_mem_nil
  · obtain ⟨entry, there, same⟩ := List.mem_map.1 (names.symm.subset (List.mem_append_right _ used))
    rw [← same]
    exact (valid_iff.1 (valid entry there)).2

/-- **Names are kept apart.** Over any documents, one after another: the names are valid, distinct
in each document, those of the table and the same in all documents, if and only if in each document
the names that the table has do not meet each other or the ones that the new keywords get. -/
theorem run_canonized_iff (strdown : Text → Text) (documents : List Document) :
    (∀ s e t, (s, e, t) ∈ Run.trace (step strdown) canonizedNew documents → Named t) ↔
      ∀ s e t, (s, e, t) ∈ Run.trace (step strdown) canonizedNew documents →
        Separate strdown (s.opened e).varsList e.keys := by
  have keep : ∀ s e t, Tabled s → step strdown s e = some t →
      Separate strdown (s.opened e).varsList e.keys → Tabled t ∧ Named t := by
    intro s e t tabled taken separate
    obtain rfl := Option.some.inj taken
    have after := tabled.canonize separate
    exact ⟨after, after.named⟩
  have keep' : ∀ s e t, Tabled s → step strdown s e = some t → Named t →
      Tabled t ∧ Separate strdown (s.opened e).varsList e.keys := by
    intro s e t tabled taken named
    obtain rfl := Option.some.inj taken
    have separate := separate_of_named named
    exact ⟨tabled.canonize separate, separate⟩
  exact ⟨Run.trace_carries (fun s e t => keep' s e t) tabled_new,
    Run.trace_carries (fun s e t => keep s e t) tabled_new⟩

/-- A letter `A` in lower case, and everything else as it is. -/
def strdownExample (str : Text) : Text := str.map fun b => if b = 65 then 97 else b

/-- A line with the keyword `A`. -/
def lineExample : Document := ⟨.line, [⟨[65], .float, false⟩], by decide⟩

/-- A flow with the keywords `A` and `a`. -/
def flowExample : Document := ⟨.flow, [⟨[65], .float, false⟩, ⟨[97], .float, false⟩], by decide⟩

/-- **Two keywords with one name**: the table has a name for `A`, and `a` is numbered without it. -/
theorem names_meet :
    ∃ s t, (s, flowExample, t) ∈ Run.trace (step strdownExample) canonizedNew
      [lineExample, flowExample] ∧
        (∃ document ∈ t.documents, document.map (fun entry => (entry.1, entry.2.keyword)) =
        [([65], [97]), ([97], [97])]) ∧ ¬ Named t := by
  refine ⟨_, _, List.mem_cons_of_mem _ List.mem_cons_self,
    ⟨_, List.mem_append_right _ List.mem_cons_self, ?_⟩, fun named => ?_⟩
  · decide +kernel
  · have separate := separate_of_named named
    refine separate.new [97] ?_ ?_
    · decide +kernel
    · decide +kernel

end Runs

end Gebr.Geoxml.Canonize
