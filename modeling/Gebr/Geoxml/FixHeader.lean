/-
**The reference to a DTD that loading puts in front of a document that has none.**

`gebr_geoxml_document_fix_header` looks for the root element behind processing instructions, takes
its name and its version from the first bytes of its tag and inserts a document type in front of it.

* `fixHeader`: the new contents, the contents as they were, or a step through a search that found
  nothing.
* `Meets`: what the repair of a header is for, whatever DTDs are known.
* `Handled`: the headers in which every search finds something.
* `fixHeader_meets_iff`: **the repair does what it is for on exactly these headers.**
-/

import Gebr.Lib.CString

namespace Gebr.Geoxml.FixHeader

open Gebr.Lib.CString

section Source

inductive Outcome
  /-- `FALSE`, with the contents as they were read. -/
  | unchanged
  /-- `TRUE`, with new contents. -/
  | fixed (contents : List UInt8)
  /-- The program went on with the result of a search that found nothing. -/
  | strayed
  deriving DecidableEq

-- `g_utf8_strup`, which depends on the locale
variable (strup : List UInt8 → List UInt8)

/-- The document type that `g_strdup_printf` writes. -/
def doctype (tagname version : List UInt8) : List UInt8 :=
  ascii "<!DOCTYPE " ++ tagname ++ ascii " PUBLIC \"-//GEBR//DTD " ++ strup tagname ++
    ascii " " ++ version ++ ascii "//EN\" \"http://gebr.googlecode.com/hg/libgebr/geoxml/data/" ++
      tagname ++ ascii "-" ++ version ++
    ascii ".dtd\">\n"

/-- The branch of the root element, whose tag begins with the first byte of `find`. -/
def insertDoctype (before find : List UInt8) : Outcome :=
  match gStrstrLen find 10 [32] with
  | none => .strayed
  | some endTag =>
    match gStrstrLen find 20 (ascii "version=") with
    | none => .strayed
    | some findVersion =>
      -- the quote in front of the version is skipped, whatever byte it is
      let value := find.drop (findVersion + 9)
      match gStrstrLen value 10 [34] with
      | none => .strayed
      | some endVersion =>
        if value.take endVersion = [] then .unchanged
        else .fixed (before ++ doctype strup ((find.take endTag).drop 1) (value.take endVersion) ++
          find)

/-- The loop over the markup in front of the root element. The contents are `before` and then
`find`, at whose first byte the pointer of the source stands; the end of the list is the byte that
ends the string. -/
def fixFrom (before find : List UInt8) : Outcome :=
  if markup : find[1]? = some 63 ∨ find[1]? = some 33 ∧ find[2]? = some 91 then
    match gStrstrLen (find.drop 2) 100 [60] with
    | none => .strayed
    | some skipped => fixFrom (before ++ find.take (skipped + 2)) (find.drop (skipped + 2))
  else if find[1]? = some 33 then .unchanged
  else insertDoctype strup before find
termination_by find.length
decreasing_by
  have present : 1 < find.length := by
    rcases markup with instruction | ⟨bang, -⟩
    · exact (List.getElem?_eq_some_iff.1 instruction).1
    · exact (List.getElem?_eq_some_iff.1 bang).1
  rw [List.length_drop]
  omega

/-- `gebr_geoxml_document_fix_header`, by what the file was read as, if it could be read. -/
def fixHeader : Option (List UInt8) → Outcome
  | none => .unchanged
  | some contents =>
    match gStrstrLen contents 100 [60] with
    | none => .unchanged
    | some find => fixFrom strup (contents.take find) (contents.drop find)

end Source

section Purpose

/-- Every markup in a text is a processing instruction or a `<![` section; no document type is among
them. -/
def Prolog (before : List UInt8) : Prop :=
  ∀ i : ℕ, before[i]? = some 60 → before[i + 1]? = some 63 ∨ before[i + 1]? = some 33 ∧
    before[i + 2]? = some 91

/-- The root element has this name, and this version as an attribute. -/
structure Names (tag version root : List UInt8) : Prop where
  blank : 32 ∉ tag
  tag : ∃ tail, root = 60 :: tag ++ 32 :: tail
  version : ∃ front quote tail, root = front ++ ascii "version=" ++ quote :: version ++ 34 :: tail

variable (known : List UInt8 → List UInt8 → Prop) (strup : List UInt8 → List UInt8)

/-- **The repair of a header**: either the contents are left alone, or the root element is preceded
by a reference to a DTD that is known, which is the one of its name and version, and all else is as
it was. -/
def Meets (contents : List UInt8) : Outcome → Prop
  | .unchanged => True
  | .fixed result => ∃ before root tag version, contents = before ++ root ∧ Prolog before ∧
      Names tag version root ∧ known tag version ∧ result = before ++ doctype strup tag version ++ root
  | .strayed => False

/-- What stands around the name and the version in the tag of the root element: the name ends and
the attribute begins near enough, and the version is closed by a double quote near enough. -/
structure RootTag (tag tail front : List UInt8) (quote : UInt8)
    (value version more root : List UInt8) : Prop where
  name : FirstIn [32] 10 (60 :: tag) tail root
  declared : FirstIn (ascii "version=") 20 front (quote :: value) root
  closed : FirstIn [34] 10 version more value

/-- **A header, from some markup on, in which every search finds something.** -/
inductive Handled : List UInt8 → Prop
  /-- Behind a processing instruction there is more markup, near enough. -/
  | instruction {gap rest text : List UInt8} : FirstIn [60] 100 gap rest text →
      Handled (60 :: rest) → Handled (60 :: 63 :: text)
  /-- So there is behind a `<![` section. -/
  | marked {gap rest text : List UInt8} : FirstIn [60] 100 gap rest (91 :: text) →
      Handled (60 :: rest) → Handled (60 :: 33 :: 91 :: text)
  /-- A document type or a comment, which the repair leaves alone. -/
  | declaration {text : List UInt8} : text.head? ≠ some 91 → Handled (60 :: 33 :: text)
  /-- The root element, where every search finds something, the version is empty or there is a DTD
  for it. -/
  | root {text tag tail front value version more : List UInt8} {quote : UInt8} :
      text.head? ≠ some 63 → text.head? ≠ some 33 →
      RootTag tag tail front quote value version more (60 :: text) →
        (version = [] ∨ known tag version) →
      Handled (60 :: text)

/-- **The contents that the repair handles**: without markup at the start, or with a header that it
handles. -/
def HandledContents (contents : List UInt8) : Prop :=
  gStrstrLen contents 100 [60] = none ∨
    ∃ before rest, FirstIn [60] 100 before rest contents ∧ Handled known (60 :: rest)

end Purpose

section Repair

variable {known : List UInt8 → List UInt8 → Prop} {strup : List UInt8 → List UInt8}

theorem version_ne_nil : ascii "version=" ≠ [] ∧ 0 ∉ ascii "version=" := by
  decide +kernel

theorem searched_value {front value find : List UInt8} {quote : UInt8}
    (found : FirstIn (ascii "version=") 20 front (quote :: value) find) :
    find.drop (front.length + 9) = value := by
  rw [← List.drop_drop, found.drop]
  rfl

/-- Markup of the two kinds may be added to a prolog. -/
theorem Prolog.append {before more : List UInt8} (prolog : Prolog before) (added : Prolog more) :
    Prolog (before ++ more) := by
  intro i opens
  rcases lt_or_ge i before.length with inside | beyond
  · have within : ∀ {k : ℕ} {b : UInt8}, before[k]? = some b → (before ++ more)[k]? = some b := by
      intro k b present
      rwa [List.getElem?_append_left (List.getElem?_eq_some_iff.1 present).1]
    rw [List.getElem?_append_left inside] at opens
    exact (prolog i opens).imp within fun marked => ⟨within marked.1, within marked.2⟩
  · obtain ⟨k, rfl⟩ := Nat.exists_eq_add_of_le beyond
    simp only [Nat.add_assoc, List.getElem?_append_right (Nat.le_add_right _ _),
      Nat.add_sub_cancel_left] at opens ⊢
    exact added k opens

/-- A document type does not begin within a prolog. -/
theorem Prolog.length_le {before before' rest rest' : List UInt8} (prolog' : Prolog before')
    (same : before ++ 60 :: 33 :: 68 :: rest = before' ++ 60 :: 33 :: 68 :: rest') :
    before'.length ≤ before.length := by
  by_contra longer
  rw [Nat.not_le] at longer
  have opens : ∀ k, (before' ++ 60 :: 33 :: 68 :: rest')[before.length + k]? =
      (60 :: 33 :: 68 :: rest)[k]? := by
    intro k
    rw [← same, List.getElem?_append_right (Nat.le_add_right _ _), Nat.add_sub_cancel_left]
  have inside : ∀ {k : ℕ} {b : UInt8}, before'[before.length + k]? = some b →
      (60 :: 33 :: 68 :: rest)[k]? = some b := by
    intro k b present
    rw [← opens k, List.getElem?_append_left (List.getElem?_eq_some_iff.1 present).1, present]
  have first : before'[before.length]? = some 60 := by
    rw [← List.getElem?_append_left longer]
    exact opens 0
  rcases prolog' _ first with instruction | ⟨-, marked⟩
  · exact absurd (Option.some.inj (inside instruction)) (by decide)
  · exact absurd (Option.some.inj (inside marked)) (by decide)

theorem Prolog.unique {before before' rest rest' : List UInt8} (prolog : Prolog before)
    (prolog' : Prolog before')
    (same : before ++ 60 :: 33 :: 68 :: rest = before' ++ 60 :: 33 :: 68 :: rest') :
    before = before' :=
  (List.append_inj same (Nat.le_antisymm (prolog.length_le same.symm) (prolog'.length_le same))).1

/-- How a document type begins, with its name up to a blank. -/
theorem doctype_opened (strup : List UInt8 → List UInt8) (tag version : List UInt8) :
    ∃ rest, doctype strup tag version =
    60 :: 33 :: 68 :: (ascii "OCTYPE " ++ (tag ++ 32 :: rest)) := by
  have opening : ascii "<!DOCTYPE " = 60 :: 33 :: 68 :: ascii "OCTYPE " := by decide +kernel
  have blank : ascii " PUBLIC \"-//GEBR//DTD " = 32 :: ascii "PUBLIC \"-//GEBR//DTD " := by
    decide +kernel
  rw [doctype, opening, blank]
  simp only [List.append_assoc, List.cons_append]
  exact ⟨_, rfl⟩

/-- The name and the version can be read off a document type. -/
theorem doctype_inj {tag tag' version version' : List UInt8} (blank : 32 ∉ tag) (blank' : 32 ∉ tag')
    (same : doctype strup tag version = doctype strup tag' version') :
    tag = tag' ∧ version = version' := by
  obtain ⟨rest, shape⟩ := doctype_opened strup tag version
  obtain ⟨rest', shape'⟩ := doctype_opened strup tag' version'
  have tags : tag = tag' := by
    rw [← takeWhile_ne blank rest, ← takeWhile_ne blank' rest']
    rw [shape, shape', List.cons_inj_right, List.cons_inj_right, List.cons_inj_right] at same
    rw [List.append_cancel_left same]
  subst tags
  simp only [doctype, List.append_assoc, List.append_cancel_left_eq] at same
  refine ⟨rfl, (List.append_inj same ?_).1⟩
  have lengths := congrArg List.length same
  simp only [List.length_append] at lengths
  omega

/-- What is inserted when every search finds something. -/
theorem RootTag.insertDoctype {before tag tail front value version more find : List UInt8}
    {quote : UInt8} (tags : RootTag tag tail front quote value version more find) :
    insertDoctype strup before find =
      if version = [] then .unchanged else .fixed (before ++ doctype strup tag version ++ find) := by
  rw [FixHeader.insertDoctype, tags.name.place (List.cons_ne_nil _ _) (by decide),
    tags.declared.place version_ne_nil.1 version_ne_nil.2]
  simp only [searched_value tags.declared, tags.closed.place (List.cons_ne_nil _ _) (by decide),
    tags.name.take, tags.closed.take]
  rfl

/-- Where a search finds nothing, the program goes on all the same. -/
theorem insertDoctype_cases (before text : List UInt8) :
    insertDoctype strup before (60 :: text) = .strayed ∨
      ∃ tag tail front quote value version more,
        RootTag tag tail front quote value version more (60 :: text) := by
  rw [insertDoctype]
  cases nameSearch : gStrstrLen (60 :: text) 10 [32] with
  | none => exact Or.inl rfl
  | some endTag =>
    obtain ⟨name, tail, names, rfl⟩ :=
      (gStrstrLen_eq_some (List.cons_ne_nil _ _) (by decide)).1 nameSearch
    cases versionSearch : gStrstrLen (60 :: text) 20 (ascii "version=") with
    | none => exact Or.inl rfl
    | some findVersion =>
      obtain ⟨front, rest, versions, rfl⟩ :=
        (gStrstrLen_eq_some version_ne_nil.1 version_ne_nil.2).1 versionSearch
      cases closeSearch : gStrstrLen ((60 :: text).drop (front.length + 9)) 10 [34] with
      | none => simp only [closeSearch, true_or]
      | some endVersion =>
        obtain ⟨version, more, closed, rfl⟩ :=
          (gStrstrLen_eq_some (List.cons_ne_nil _ _) (by decide)).1 closeSearch
        -- the name does not end at once, and there is a byte behind the equals sign
        cases name with
        | nil => exact absurd (List.cons.inj names.parts).1 (by decide)
        | cons b tag =>
          obtain rfl : 60 = b := (List.cons.inj names.parts).1
          cases rest with
          | nil =>
            have parts := closed.parts
            rw [← List.drop_drop, versions.drop] at parts
            exact absurd (congrArg List.length parts) (by simp [ascii])
          | cons quote value =>
            rw [searched_value versions] at closed
            exact Or.inr ⟨tag, tail, front, quote, value, version, more, ⟨names, versions, closed⟩⟩

theorem RootTag.names {tag tail front value version more root : List UInt8} {quote : UInt8}
    (tags : RootTag tag tail front quote value version more root) : Names tag version root where
  blank := fun member => tags.name.absent (List.mem_cons_of_mem _ member)
  tag := ⟨tail, by rw [tags.name.parts, List.append_assoc]; rfl⟩
  version := ⟨front, quote, more, by
    rw [tags.declared.parts, tags.closed.parts, List.append_assoc version,
      List.append_assoc _ (quote :: version)]
    rfl⟩

/-- A reference that is inserted is known if and only if there is a DTD for the name and the
version. -/
theorem meets_fixed_iff {before root tag version : List UInt8} (prolog : Prolog before)
    (names : Names tag version root) :
    Meets known strup (before ++ root) (.fixed (before ++ doctype strup tag version ++ root)) ↔
      known tag version := by
  refine ⟨?_, fun there => ⟨before, root, tag, version, rfl, prolog, names, there, rfl⟩⟩
  rintro ⟨before', root', tag', version', contents, prolog', names', there, result⟩
  obtain ⟨rest, shape⟩ := doctype_opened strup tag version
  obtain ⟨rest', shape'⟩ := doctype_opened strup tag' version'
  obtain rfl : before = before' := by
    rw [shape, shape', List.append_assoc, List.append_assoc] at result
    exact prolog.unique prolog' result
  obtain rfl : root = root' := List.append_cancel_left contents
  obtain ⟨rfl, rfl⟩ := doctype_inj names.blank names'.blank
    (List.append_cancel_left (List.append_cancel_right result))
  exact there

/-- **The branch of the root element.** -/
theorem insertDoctype_meets_iff {before text : List UInt8} (prolog : Prolog before)
    (instruction : text.head? ≠ some 63) (bang : text.head? ≠ some 33) :
    Meets known strup (before ++ 60 :: text) (insertDoctype strup before (60 :: text)) ↔
      Handled known (60 :: text) := by
  constructor
  · intro meets
    rcases @insertDoctype_cases strup before text with strayed | searched
    · rw [strayed] at meets
      exact meets.elim
    · obtain ⟨tag, tail, front, quote, value, version, more, tags⟩ := searched
      refine Handled.root instruction bang tags (or_iff_not_imp_left.2 fun some_version => ?_)
      rw [tags.insertDoctype, if_neg some_version] at meets
      exact (meets_fixed_iff prolog tags.names).1 meets
  · rintro (_ | _ | _ | ⟨-, -, tags, usable⟩)
    · exact absurd rfl instruction
    · exact absurd rfl bang
    · exact absurd rfl bang
    · rw [tags.insertDoctype]
      split
      · trivial
      · exact (meets_fixed_iff prolog tags.names).2 (usable.resolve_left ‹_›)

/-- What the source calls markup: the bytes behind the `<` are `?`, or `!` and `[`. -/
theorem prolog_markup {b : UInt8} {gap : List UInt8} (markup : b = 63 ∨ b = 33 ∧ gap[0]? = some 91)
    (clean : 60 ∉ gap) : Prolog (60 :: b :: gap) := by
  intro i opens
  cases i with
  | zero => exact markup.imp (congrArg some) fun marked => ⟨congrArg some marked.1, marked.2⟩
  | succ i =>
    rw [List.getElem?_cons_succ] at opens
    rcases List.mem_cons.1 (List.mem_of_getElem? opens) with same | member
    · rw [← same] at markup
      exact absurd (markup.imp_right And.left) (by decide)
    · exact absurd member clean

/-- Markup in front of the root element is handled if the next one is near enough and handled. -/
theorem handled_markup_iff {b : UInt8} {text : List UInt8}
    (markup : b = 63 ∨ b = 33 ∧ text[0]? = some 91) : Handled known (60 :: b :: text) ↔
      ∃ gap rest, FirstIn [60] 100 gap rest text ∧ Handled known (60 :: rest) := by
  constructor
  · rintro (⟨found, handled⟩ | ⟨found, handled⟩ | other | ⟨instruction, bang, -, -⟩)
    · exact ⟨_, _, found, handled⟩
    · exact ⟨_, _, found, handled⟩
    · rcases markup with same | ⟨-, marked⟩
      · exact absurd same (by decide)
      · exact absurd (List.head?_eq_getElem?.trans marked) other
    · rcases markup with rfl | ⟨rfl, -⟩
      · exact absurd rfl instruction
      · exact absurd rfl bang
  · rintro ⟨gap, rest, found, handled⟩
    rcases markup with rfl | ⟨rfl, marked⟩
    · exact .instruction found handled
    · cases text with
      | nil => exact nomatch marked
      | cons c text =>
        obtain rfl : c = 91 := Option.some.inj marked
        exact .marked found handled

/-- **The loop over the markup, from any markup on.** -/
theorem fixFrom_meets_iff {before text : List UInt8} (prolog : Prolog before) :
    Meets known strup (before ++ 60 :: text) (fixFrom strup before (60 :: text)) ↔
      Handled known (60 :: text) := by
  induction size : text.length using Nat.strong_induction_on generalizing before text with
  | h n ih =>
    subst size
    rw [fixFrom]
    cases text with
    | nil =>
      exact insertDoctype_meets_iff prolog (nomatch ·) (nomatch ·)
    | cons b text =>
      simp only [List.getElem?_cons_succ, List.getElem?_cons_zero, Option.some.injEq,
        List.drop_succ_cons, List.drop_zero]
      by_cases markup : b = 63 ∨ b = 33 ∧ text[0]? = some 91
      · rw [dif_pos markup, handled_markup_iff markup]
        cases search : gStrstrLen text 100 [60] with
        | none =>
          refine iff_of_false id ?_
          rintro ⟨gap, rest, found, -⟩
          rw [found.place (List.cons_ne_nil _ _) (by decide)] at search
          exact nomatch search
        | some skipped =>
          obtain ⟨gap, rest, found, rfl⟩ :=
            (gStrstrLen_eq_some (List.cons_ne_nil _ _) (by decide)).1 search
          -- the byte behind the exclamation mark is no markup, so it is skipped
          have behind : b = 63 ∨ b = 33 ∧ gap[0]? = some 91 := by
            refine markup.imp id fun marked => ⟨marked.1, ?_⟩
            rw [found.parts] at marked
            cases gap with
            | nil => exact absurd (Option.some.inj marked.2) (by decide)
            | cons c gap => exact marked.2
          have next := ih rest.length (by
              rw [found.parts]
              simp only [List.length_cons, List.length_append]
              omega)
            (prolog.append (prolog_markup behind found.absent)) rfl
          have parts : before ++ 60 :: b :: text = before ++ 60 :: b :: gap ++ 60 :: rest := by
            rw [List.append_assoc, List.cons_append, List.cons_append, found.parts, List.append_assoc]
            rfl
          simp only [List.take_succ_cons, found.take, found.drop, parts]
          refine next.trans ⟨fun handled => ⟨gap, rest, found, handled⟩, ?_⟩
          rintro ⟨gap', rest', again, handled⟩
          obtain ⟨rfl, rfl⟩ := found.unique (List.cons_ne_nil _ _) (by decide) again
          exact handled
      · rw [dif_neg markup]
        rw [not_or] at markup
        split
        case isTrue bang =>
          obtain rfl : b = 33 := bang
          refine iff_of_true trivial (.declaration fun marked => markup.2 ⟨rfl, ?_⟩)
          rw [← marked, List.head?_eq_getElem?]
        case isFalse bang =>
          exact insertDoctype_meets_iff prolog (fun same => markup.1 (Option.some.inj same))
            fun same => bang (Option.some.inj same)

/-- **The repair of the header does what it is for on exactly the contents that it handles**,
whatever DTDs there are. -/
theorem fixHeader_meets_iff (known : List UInt8 → List UInt8 → Prop) (strup : List UInt8 → List UInt8)
    (contents : List UInt8) :
    Meets known strup contents (fixHeader strup (some contents)) ↔ HandledContents known contents := by
  rw [fixHeader, HandledContents]
  cases search : gStrstrLen contents 100 [60] with
  | none => exact iff_of_true trivial (Or.inl rfl)
  | some find =>
    obtain ⟨before, rest, found, rfl⟩ := (gStrstrLen_eq_some (List.cons_ne_nil _ _) (by decide)).1
      search
    have prolog : Prolog before := fun i opens => absurd (List.mem_of_getElem? opens) found.absent
    simp only [found.take, found.drop, reduceCtorEq, false_or]
    have parts : contents = before ++ 60 :: rest := by
      rw [found.parts, List.append_assoc]
      rfl
    rw [parts]
    refine (fixFrom_meets_iff prolog).trans ⟨fun handled => ⟨before, rest, parts ▸ found, handled⟩, ?_⟩
    rintro ⟨before', rest', again, handled⟩
    obtain ⟨rfl, rfl⟩ := found.unique (List.cons_ne_nil _ _) (by decide) (parts ▸ again)
    exact handled

/-- The DTDs that are installed. -/
def dtds : List (List UInt8 × List UInt8) :=
  (["0.1.0", "0.1.1", "0.2.0", "0.2.1", "0.2.2", "0.2.3", "0.3.0", "0.3.1", "0.3.2", "0.3.3",
      "0.3.4", "0.3.5", "0.3.6", "0.3.7", "0.3.8", "0.3.9", "0.4.0"].map fun version =>
        (ascii "flow", ascii version)) ++
    (["0.1.0", "0.2.0", "0.3.0", "0.3.1", "0.3.2", "0.3.3", "0.3.4", "0.3.5", "0.3.6", "0.3.7"].map
      fun version => (ascii "line", ascii version)) ++
    ["0.1.0", "0.2.0", "0.3.0", "0.3.1", "0.3.2", "0.3.3"].map fun version =>
      (ascii "project", ascii version)

/-- `g_utf8_strup` on texts of ASCII characters. -/
def asciiUp (text : List UInt8) : List UInt8 :=
  text.map fun b => if 97 ≤ b ∧ b ≤ 122 then b - 32 else b

/-- A flow whose version stands in single quotes: the search for the double quote that closes it
finds nothing. -/
theorem single_quotes : ¬ Meets (fun tag version => (tag, version) ∈ dtds) asciiUp
    (ascii "<flow version='0.4.0'></flow>")
    (fixHeader asciiUp (some (ascii "<flow version='0.4.0'></flow>"))) := by
  have begins : gStrstrLen (ascii "<flow version='0.4.0'></flow>") 100 [60] = some 0 := by
    decide +kernel
  have root : ¬ ((ascii "<flow version='0.4.0'></flow>")[1]? = some 63 ∨
      (ascii "<flow version='0.4.0'></flow>")[1]? = some 33 ∧
        (ascii "<flow version='0.4.0'></flow>")[2]? = some 91) := by decide +kernel
  have bang : ¬ (ascii "<flow version='0.4.0'></flow>")[1]? = some 33 := by decide +kernel
  have strayed : insertDoctype asciiUp [] (ascii "<flow version='0.4.0'></flow>") = .strayed := by
    decide +kernel
  rw [fixHeader, begins]
  simp only [List.take_zero, List.drop_zero]
  rw [fixFrom, dif_neg root, if_neg bang, strayed]
  exact id

end Repair

end Gebr.Geoxml.FixHeader
