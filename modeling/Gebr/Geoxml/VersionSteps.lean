/-
**The steps that bring a document to the current version.**

`__gebr_geoxml_document_validate_doc` compares the version of a document as three numbers with the
current one, and then, for each step in turn, as a text with the version that the step leads to.

* `checkVersion`, `validateDoc`: the gate and the steps, whatever they edit besides the version.
* `Migrates`: exactly the steps to later versions, in their order, and the current version at the
  end.
* `Ordered`: the texts for which the two orders agree at every step.
* `migrates_iff`: **a document is brought to the current version on exactly these texts.**
-/

import Gebr.Geoxml.CanonizeDict

namespace Gebr.Geoxml.VersionSteps

open Gebr.Lib.CString
open Gebr.Geoxml.Canonize (DocumentType)

section Source

/-- Three numbers, as they are stored in variables of type `guint`. -/
structure Version where
  major : ℕ
  minor : ℕ
  micro : ℕ
  deriving DecidableEq

/-- `%d` into a `guint`, and what follows it. -/
def scanInt (s : List UInt8) : Option (ℕ × List UInt8) :=
  let rest := (takeSign (s.dropWhile isSpace)).2
  if rest.takeWhile isDigit = [] then none
  else some (((strtol s).1 % 2 ^ 32).toNat, rest.dropWhile isDigit)

/-- A full stop of the format. -/
def scanStop : List UInt8 → Option (List UInt8)
  | 46 :: s => some s
  | _ => none

/-- `sscanf` of `%d.%d.%d`, if it stores three numbers; what follows them does not matter. -/
def scanVersion (s : List UInt8) : Option Version := do
  let (major, s) ← scanInt s
  let s ← scanStop s
  let (minor, s) ← scanInt s
  let s ← scanStop s
  let (micro, _) ← scanInt s
  return { major, minor, micro }

/-- The comparison of the gate. -/
def Version.less (v w : Version) : Bool :=
  v.major < w.major || (v.major == w.major && v.minor < w.minor) ||
    (v.major == w.major && v.minor == w.minor && v.micro < w.micro)

/-- `GEBR_GEOXML_FLOW_VERSION` and its like. -/
def currentVersion : DocumentType → List UInt8
  | .flow => ascii "0.4.0"
  | .line => ascii "0.3.7"
  | .project => ascii "0.3.3"

/-- `gebr_geoxml_document_check_version`. -/
def checkVersion (type : DocumentType) (version : List UInt8) : Bool :=
  match scanVersion version, scanVersion (currentVersion type) with
  | some v, some current => !current.less v
  | _, _ => false

/-- `strcmp (s, t) < 0`. -/
def strcmpLess : List UInt8 → List UInt8 → Bool
  | [], t => t ≠ []
  | _ :: _, [] => false
  | a :: s, b :: t => a < b || (a == b && strcmpLess s t)

/-- One of the blocks `if (strcmp (version, target) < 0)`: the types of documents that it edits, and
those whose version it sets, which it sets to `target`. -/
structure Block where
  target : List UInt8
  edits : List DocumentType
  sets : List DocumentType
  deriving DecidableEq

def blocks : List Block :=
  let all : List DocumentType := [.flow, .line, .project]
  [⟨ascii "0.2.0", all, []⟩, ⟨ascii "0.2.1", [.flow], []⟩, ⟨ascii "0.2.2", [.flow], [.flow]⟩,
    ⟨ascii "0.2.3", all, all⟩, ⟨ascii "0.3.0", all, all⟩, ⟨ascii "0.3.1", all, all⟩,
      ⟨ascii "0.3.2", all, all⟩,
    ⟨ascii "0.3.3", all, all⟩, ⟨ascii "0.3.4", [.flow, .line], [.flow, .line]⟩,
    ⟨ascii "0.3.5", [.flow, .line], [.flow, .line]⟩, ⟨ascii "0.3.6", [.flow, .line], [.flow, .line]⟩,
    ⟨ascii "0.3.7", [.flow, .line], [.flow, .line]⟩, ⟨ascii "0.3.8", [.flow], [.flow]⟩,
    ⟨ascii "0.3.9", [.flow], [.flow]⟩, ⟨ascii "0.4.0", [.flow], [.flow]⟩]

/-- The version of a document, and all the rest of it. -/
structure Document (α : Type) where
  version : List UInt8
  content : α

inductive Failure
  | invalidDocument
  | newerVersion

variable {α : Type}

/-- One block, for a document that came with `version`. -/
def Block.run (edit : DocumentType → List UInt8 → α → α) (type : DocumentType) (version : List UInt8)
    (document : Document α) (block : Block) : Document α :=
  if strcmpLess version block.target = true ∧ type ∈ block.edits then
    { version := if type ∈ block.sets then block.target else document.version
      content := edit type block.target document.content }
  else document

/-- `__gebr_geoxml_document_validate_doc`. What a block edits is `edit`, of the type of the document
and the target of the block; `checks` is what follows the blocks for a flow. -/
def validateDoc (edit : DocumentType → List UInt8 → α → α) (checks : α → α) (type : DocumentType)
    (document : Document α) : Except Failure (Document α) :=
  if scanVersion document.version = none then .error .invalidDocument
  else if checkVersion type document.version = false then .error .newerVersion
  else
    let migrated := blocks.foldl (Block.run edit type document.version) document
    .ok (if type = .flow then { migrated with content := checks migrated.content } else migrated)

end Source

section Purpose

/-- The targets of the blocks that do something for a type of documents. -/
def steps (type : DocumentType) : List (List UInt8) :=
  (blocks.filter fun block => type ∈ block.edits).map Block.target

/-- A version is earlier than another one, as numbers. -/
def earlier (version target : List UInt8) : Bool :=
  match scanVersion version, scanVersion target with
  | some v, some w => v.less w
  | _, _ => false

/-- **Loading applies exactly the steps to versions that are later as numbers**, each once and in
their order, and ends with the current version, whatever the steps and the checks edit. -/
def Migrates (type : DocumentType) (version : List UInt8) : Prop :=
  ∀ (α : Type) (edit : DocumentType → List UInt8 → α → α) (checks : α → α) (content : α),
    ∃ result, validateDoc edit checks type ⟨version, content⟩ = .ok result ∧
      result.version = currentVersion type ∧
      result.content = (if type = .flow then checks else id)
        (((steps type).filter (earlier version)).foldl
          (fun content target => edit type target content) content)

/-- The text of a version of two digits. -/
def release (minor micro : ℕ) : List UInt8 := [48, 46, digit minor, 46, digit micro]

/-- **The version texts that are in order.** -/
inductive Ordered (type : DocumentType) (version : List UInt8) : Prop
  /-- Before the first step both as a text and as numbers. -/
  | early {v : Version} : scanVersion version = some v → v.less ⟨0, 2, 0⟩ = true →
      strcmpLess version (ascii "0.2.0") = true → Ordered type version
  /-- Beginning with `0.`, a digit, a full stop and a digit, where no step lies between this digit
  and the number that begins with it. -/
  | plain {v : Version} {minor first : ℕ} {rest : List UInt8} : scanVersion version = some v →
      minor < 10 → first < 10 → version = release minor first ++ rest →
      (∀ micro < 10, release minor micro ∈ steps type → (first < micro ↔ v.micro < micro)) →
      Ordered type version
  /-- A minor version of more than one digit that overflows to its first digit, behind all of its
  steps. -/
  | overflow {v : Version} {minor next : ℕ} {rest : List UInt8} : scanVersion version = some v →
      minor < 10 → next < 10 → version = 48 :: 46 :: digit minor :: digit next :: rest →
        v.minor = minor →
      (∀ micro < 10, release minor micro ∈ steps type → micro ≤ v.micro) →
      Ordered type version

end Purpose

section Folding

variable {α : Type} {edit : DocumentType → List UInt8 → α → α} {type : DocumentType}
    {version : List UInt8}

/-- The blocks that do something for a type of documents. -/
def editing (type : DocumentType) : List Block := blocks.filter fun block => type ∈ block.edits

theorem steps_eq (type : DocumentType) : steps type = (editing type).map Block.target := rfl

theorem foldl_run (document : Document α) : blocks.foldl (Block.run edit type version) document =
    (editing type).foldl (Block.run edit type version) document := by
  rw [editing, List.foldl_filter]
  congr 1
  funext document block
  by_cases edits : type ∈ block.edits
  · simp only [edits, decide_true, if_true]
  · simp only [edits, decide_false, Bool.false_eq_true, if_false, Block.run, and_false]

/-- What the blocks edit, by those of them that the comparison of texts lets through. -/
theorem foldl_run_content {applied : List Block} (all : ∀ block ∈ applied, type ∈ block.edits)
    (document : Document α) : (applied.foldl (Block.run edit type version) document).content =
      ((applied.map Block.target).filter (strcmpLess version)).foldl
        (fun content target => edit type target content) document.content := by
  induction applied generalizing document with
  | nil => rfl
  | cons block applied ih =>
    rw [List.foldl_cons, ih fun other member => all other (List.mem_cons_of_mem block member),
      List.map_cons, List.filter_cons]
    have edits := all block List.mem_cons_self
    by_cases less : strcmpLess version block.target = true
    · rw [Block.run, if_pos ⟨less, edits⟩, if_pos less, List.foldl_cons]
    · rw [Block.run, if_neg fun both => less both.1, if_neg less]

/-- The last step of each type leads to the current version, and sets it. -/
theorem editing_last (type : DocumentType) : ∃ front last, editing type = front ++ [last] ∧
    last.target = currentVersion type ∧ type ∈ last.edits ∧ type ∈ last.sets := by
  cases type with
  | flow => exact ⟨(editing .flow).dropLast, ⟨ascii "0.4.0", [.flow], [.flow]⟩, by decide +kernel⟩
  | line =>
    exact ⟨(editing .line).dropLast, ⟨ascii "0.3.7", [.flow, .line], [.flow, .line]⟩, by
      decide +kernel⟩
  | project => exact ⟨(editing .project).dropLast, ⟨ascii "0.3.3", [.flow, .line, .project],
      [.flow, .line, .project]⟩, by decide +kernel⟩

theorem current_mem_steps (type : DocumentType) : currentVersion type ∈ steps type := by
  obtain ⟨front, last, parts, target, -⟩ := editing_last type
  rw [steps_eq, parts, List.map_append, ← target]
  exact List.mem_append_right _ List.mem_cons_self

end Folding

section Gate

variable {type : DocumentType} {version : List UInt8}

theorem Version.less_iff {v w : Version} : v.less w = true ↔
    v.major < w.major ∨ v.major = w.major ∧
    (v.minor < w.minor ∨ v.minor = w.minor ∧ v.micro < w.micro) := by
  simp only [Version.less, Bool.or_eq_true, Bool.and_eq_true, decide_eq_true_iff, beq_iff_eq]
  omega

/-- An earlier version than the current one passes the gate. -/
theorem checkVersion_of_earlier (older : earlier version (currentVersion type) = true) :
    checkVersion type version = true := by
  rw [earlier] at older
  rw [checkVersion]
  split at older
  case h_1 v w read current =>
    rw [Bool.not_eq_true', ← Bool.not_eq_true, Version.less_iff]
    rw [Version.less_iff] at older
    omega
  case h_2 => exact nomatch older

/-- The comparisons of texts and of numbers agree at every step. -/
def Agree (type : DocumentType) (version : List UInt8) : Prop :=
  ∀ target ∈ steps type, strcmpLess version target = earlier version target

theorem filter_eq_iff {α : Type} {p q : α → Bool} {l : List α} :
    l.filter p = l.filter q ↔ ∀ a ∈ l, p a = q a := by
  refine ⟨fun same a member => ?_, List.filter_congr⟩
  have both : a ∈ l.filter p ↔ a ∈ l.filter q := by rw [same]
  rw [List.mem_filter, List.mem_filter, and_iff_right member, and_iff_right member] at both
  exact Bool.eq_iff_iff.2 both

/-- What loading a document of an earlier version does. -/
theorem validateDoc_of_earlier {α : Type} (edit : DocumentType → List UInt8 → α → α) (checks : α → α)
    (older : earlier version (currentVersion type) = true) (content : α) :
    ∃ result, validateDoc edit checks type ⟨version, content⟩ = .ok result ∧
      (strcmpLess version (currentVersion type) = true → result.version = currentVersion type) ∧
      result.content = (if type = .flow then checks else id)
        (((steps type).filter (strcmpLess version)).foldl
          (fun content target => edit type target content) content) := by
  have read : scanVersion version ≠ none := by
    intro none
    rw [earlier, none] at older
    exact nomatch older
  have migrated : (strcmpLess version (currentVersion type) = true →
      (blocks.foldl (Block.run edit type version) ⟨version, content⟩).version = currentVersion type) ∧
      (blocks.foldl (Block.run edit type version) ⟨version, content⟩).content =
        ((steps type).filter (strcmpLess version)).foldl
          (fun content target => edit type target content) content := by
    rw [foldl_run]
    refine ⟨fun less => ?_, foldl_run_content (fun block member => ?_) _⟩
    · obtain ⟨front, last, parts, target, edits, sets⟩ := editing_last type
      rw [parts, List.foldl_concat, Block.run, if_pos ⟨target ▸ less, edits⟩]
      exact (if_pos sets).trans target
    · exact of_decide_eq_true (List.mem_filter.1 member).2
  rw [validateDoc, if_neg read, if_neg (by rw [checkVersion_of_earlier older]; decide)]
  refine ⟨_, rfl, ?_⟩
  cases type with
  | flow => exact ⟨migrated.1, congrArg checks migrated.2⟩
  | line => exact migrated
  | project => exact migrated

/-- **A document is migrated as it should be if and only if the two comparisons agree.** -/
theorem migrates_iff_agree (older : earlier version (currentVersion type) = true) :
    Migrates type version ↔ Agree type version := by
  constructor
  · intro migrates
    obtain ⟨result, loaded, -, content⟩ := migrates (List (List UInt8))
      (fun _ target applied => target :: applied) id []
    obtain ⟨result', loaded', -, content'⟩ := validateDoc_of_earlier
      (fun _ target applied => target :: applied) id older []
    obtain rfl : result = result' := Except.ok.inj (loaded.symm.trans loaded')
    rw [content, ite_self, id, id, List.foldl_flip_cons_eq_append', List.foldl_flip_cons_eq_append',
      List.append_nil, List.append_nil, List.reverse_inj, filter_eq_iff] at content'
    exact fun target member => (content' target member).symm
  · intro agree α edit checks content
    obtain ⟨result, loaded, current, same⟩ := validateDoc_of_earlier edit checks older content
    rw [List.filter_congr agree] at same
    refine ⟨result, loaded, current ?_, same⟩
    rw [agree _ (current_mem_steps type), older]

end Gate

section Texts

/-- How a text begins that is read as a version, as far as the comparison with `0.` and two digits
looks at it. -/
inductive Shape (v : Version) : List UInt8 → Prop
  /-- A blank or a sign. -/
  | low {c : UInt8} {rest : List UInt8} : c < 48 → Shape v (c :: rest)
  | high {c : UInt8} {rest : List UInt8} : 48 < c → Shape v (c :: rest)
  /-- A leading zero. -/
  | leading {next : ℕ} {rest : List UInt8} : next < 10 → Shape v (48 :: digit next :: rest)
  | lowMinor {c : UInt8} {rest : List UInt8} : c < 48 → Shape v (48 :: 46 :: c :: rest)
  /-- A minor version of more than one digit. -/
  | long {minor next : ℕ} {rest : List UInt8} : minor < 10 → next < 10 →
      Shape v (48 :: 46 :: digit minor :: digit next :: rest)
  | lowMicro {c : UInt8} {rest : List UInt8} : v.minor < 10 → c < 48 →
      Shape v (48 :: 46 :: digit v.minor :: 46 :: c :: rest)
  | plain {first : ℕ} {rest : List UInt8} : v.minor < 10 → first < 10 →
      Shape v (release v.minor first ++ rest)

theorem exists_digit {c : UInt8} (good : isDigit c = true) : ∃ n < 10, c = digit n := by
  rw [isDigit_iff] at good
  refine ⟨c.toNat - 48, by omega, UInt8.toNat_inj.1 ?_⟩
  rw [toNat_digit (by omega)]
  omega

theorem lt_of_isSpace {c : UInt8} (blank : isSpace c = true) : c < 48 := by
  rw [isSpace, Bool.or_eq_true, Bool.and_eq_true, decide_eq_true_iff, decide_eq_true_iff,
    decide_eq_true_iff] at blank
  rcases blank with rfl | ⟨-, most⟩
  · decide
  · exact UInt8.lt_of_le_of_lt most (by decide)

theorem strtol_one {c : UInt8} {rest : List UInt8} (good : isDigit c = true)
    (ends : rest.takeWhile isDigit = []) : (strtol (c :: rest)).1 = (c.toNat - 48 : ℕ) := by
  have small := (isDigit_iff c).1 good
  have one : value [c] = c.toNat - 48 := by
    rw [show [c] = [] ++ [c] from rfl, value_concat, value_nil]
    omega
  unfold strtol
  simp only [takeSign_digits good, List.takeWhile_cons_of_pos good, ends, one, Bool.false_eq_true,
    if_false]
  rw [if_neg (by unfold longMax; omega), if_neg (by unfold longMin; omega)]

/-- What `%d` reads begins with a blank or a sign, is one digit, or begins with two digits. -/
theorem scanInt_cases {s rest : List UInt8} {n : ℕ} (read : scanInt s = some (n, rest)) :
    (∃ c tail, s = c :: tail ∧ c < 48) ∨ (n < 10 ∧ s = digit n :: rest) ∨
      ∃ first next tail, first < 10 ∧ next < 10 ∧ s = digit first :: digit next :: tail := by
  cases s with
  | nil => exact nomatch read
  | cons c tail =>
    by_cases good : isDigit c = true
    · refine Or.inr ?_
      rw [scanInt, takeSign_digits good, List.takeWhile_cons_of_pos good,
        if_neg (List.cons_ne_nil _ _), List.dropWhile_cons_of_pos good, Option.some.injEq,
          Prod.mk.injEq] at read
      obtain ⟨first, small, rfl⟩ := exists_digit good
      cases ends : tail.takeWhile isDigit with
      | nil =>
        rw [strtol_one good ends, toNat_digit small] at read
        obtain ⟨number, rfl⟩ := read
        obtain rfl : first = n := by omega
        refine Or.inl ⟨small, ?_⟩
        conv_lhs => rw [← List.takeWhile_append_dropWhile (p := isDigit) (l := tail), ends,
          List.nil_append]
      | cons b digits =>
        cases tail with
        | nil => exact nomatch ends
        | cons b' tail =>
          by_cases more : isDigit b' = true
          · obtain ⟨next, small', rfl⟩ := exists_digit more
            exact Or.inr ⟨first, next, tail, small, small', rfl⟩
          · rw [List.takeWhile_cons_of_neg more] at ends
            exact nomatch ends
    · refine Or.inl ⟨c, tail, rfl, ?_⟩
      by_cases blank : isSpace c = true
      · exact lt_of_isSpace blank
      · by_contra high
        have minus : c ≠ 45 := by rintro rfl; exact high (by decide)
        have plus : c ≠ 43 := by rintro rfl; exact high (by decide)
        rw [scanInt, List.dropWhile_cons_of_neg blank,
          takeSign.eq_3 _ (fun _ same => minus (List.cons.inj same).1)
            (fun _ same => plus (List.cons.inj same).1), List.takeWhile_cons_of_neg good,
              if_pos rfl] at read
        exact nomatch read

theorem eq_of_scanStop {s rest : List UInt8} (read : scanStop s = some rest) : s = 46 :: rest := by
  unfold scanStop at read
  split at read
  · rw [Option.some.inj read]
  · exact nomatch read

theorem digit_lt_of_lt {m n : ℕ} (less : m < n) (small : n < 10) : digit m < digit n := by
  rw [UInt8.lt_iff_toNat_lt, toNat_digit (less.trans small), toNat_digit small]
  omega

/-- The first character is a digit: all but a zero are high. -/
theorem shape_of_digit {v : Version} {n : ℕ} {rest : List UInt8} (small : n < 10)
    (zero : n = 0 → Shape v (48 :: rest)) : Shape v (digit n :: rest) := by
  rcases Nat.eq_zero_or_pos n with rfl | positive
  · exact zero rfl
  · exact .high (digit_lt_of_lt positive small)

theorem shape_of_scanVersion {version : List UInt8} {v : Version}
    (read : scanVersion version = some v) : Shape v version := by
  simp only [scanVersion, Option.bind_eq_bind, Option.bind_eq_some_iff, Prod.exists, Option.pure_def,
    Option.some.injEq] at read
  obtain ⟨major, s, first, s', stop, minor, t, second, t', stop', micro, u, third, rfl⟩ := read
  obtain rfl := eq_of_scanStop stop
  obtain rfl := eq_of_scanStop stop'
  rcases scanInt_cases first with
    ⟨c, tail, rfl, low⟩ | ⟨small, rfl⟩ | ⟨one, two, tail, small, small', rfl⟩
  · exact .low low
  · refine shape_of_digit small fun _ => ?_
    rcases scanInt_cases second with
      ⟨c, tail, rfl, low⟩ | ⟨small, rfl⟩ | ⟨one, two, tail, small, small', rfl⟩
    · exact .lowMinor low
    · rcases scanInt_cases third with
        ⟨c, tail, rfl, low⟩ | ⟨small', rfl⟩ | ⟨one, two, tail, small', -, rfl⟩
      · exact Shape.lowMicro (v := ⟨major, minor, micro⟩) small low
      · exact Shape.plain (v := ⟨major, minor, micro⟩) small small'
      · exact Shape.plain (v := ⟨major, minor, micro⟩) small small'
    · exact .long small small'
  · exact shape_of_digit small fun _ => .leading small'

end Texts

section Orders

/-- The comparison of texts at a version of two digits, by the way the other text begins. -/
theorem strcmpLess_cons {a b : UInt8} {s t : List UInt8} :
    strcmpLess (a :: s) (b :: t) = true ↔ a < b ∨ a = b ∧ strcmpLess s t = true := by
  rw [strcmpLess, Bool.or_eq_true, Bool.and_eq_true, decide_eq_true_iff, beq_iff_eq]

theorem not_strcmpLess_nil (s : List UInt8) : strcmpLess s [] = false := by
  cases s with
  | nil => rfl
  | cons a s => rfl

theorem digit_lt_iff {m n : ℕ} (small : m < 10) (small' : n < 10) : digit m < digit n ↔ m < n := by
  rw [UInt8.lt_iff_toNat_lt, toNat_digit small, toNat_digit small']
  omega

theorem digit_inj {m n : ℕ} (small : m < 10) (small' : n < 10) : digit m = digit n ↔ m = n := by
  rw [← UInt8.toNat_inj, toNat_digit small, toNat_digit small']
  omega

variable {minor next first x y : ℕ} {rest : List UInt8}

theorem lowMinor_less {c : UInt8} (low : c < 48) (small : x < 10) :
    strcmpLess (48 :: 46 :: c :: rest) (release x y) = true := by
  refine strcmpLess_cons.2
    (Or.inr ⟨rfl, strcmpLess_cons.2 (Or.inr ⟨rfl, strcmpLess_cons.2 (Or.inl ?_)⟩)⟩)
  rw [UInt8.lt_iff_toNat_lt] at low ⊢
  rw [toNat_digit small]
  exact low.trans_le (Nat.le_add_right _ _)

theorem stop_lt_digit (small : next < 10) : 46 < digit next := by
  rw [UInt8.lt_iff_toNat_lt, toNat_digit small]
  exact Nat.lt_of_lt_of_le (by decide) (Nat.le_add_right 48 next)

theorem leading_not_less (small : next < 10) :
    ¬ strcmpLess (48 :: digit next :: rest) (release x y) = true := by
  rw [release, strcmpLess_cons, strcmpLess_cons]
  rintro (less | ⟨-, less | ⟨same, -⟩⟩)
  · exact absurd less (by decide)
  · exact UInt8.lt_asymm (stop_lt_digit small) less
  · exact UInt8.ne_of_lt (stop_lt_digit small) same.symm

/-- Behind `0.` the first digits decide, unless they are the same. -/
theorem minor_less_iff (small : minor < 10) (bound : x < 10) :
    strcmpLess (48 :: 46 :: digit minor :: rest) (release x y) = true ↔
      minor < x ∨ minor = x ∧ strcmpLess rest [46, digit y] = true := by
  rw [release, strcmpLess_cons, strcmpLess_cons, strcmpLess_cons, digit_lt_iff small bound,
    digit_inj small bound]
  simp only [UInt8.lt_irrefl, true_and, false_or]

theorem long_less_iff (small : minor < 10) (more : next < 10) (bound : x < 10) :
    strcmpLess (48 :: 46 :: digit minor :: digit next :: rest) (release x y) = true ↔ minor < x := by
  rw [minor_less_iff small bound, or_iff_left]
  rintro ⟨-, less⟩
  rcases strcmpLess_cons.1 less with less | ⟨same, -⟩
  · exact UInt8.lt_asymm (stop_lt_digit more) less
  · exact UInt8.ne_of_lt (stop_lt_digit more) same.symm

theorem lowMicro_less_iff {c : UInt8} (low : c < 48) (small : minor < 10) (bound : x < 10)
    (bound' : y < 10) : strcmpLess (48 :: 46 :: digit minor :: 46 :: c :: rest) (release x y) =
    true ↔ minor ≤ x := by
  have less : c < digit y := by
    rw [UInt8.lt_iff_toNat_lt] at low ⊢
    rw [toNat_digit bound']
    exact low.trans_le (Nat.le_add_right _ _)
  rw [minor_less_iff small bound, Nat.le_iff_lt_or_eq,
    and_iff_left (strcmpLess_cons.2 (Or.inr ⟨rfl, strcmpLess_cons.2 (Or.inl less)⟩))]

theorem plain_less_iff (small : minor < 10) (small' : first < 10) (bound : x < 10) (bound' : y < 10) :
    strcmpLess (release minor first ++ rest) (release x y) = true ↔ minor < x ∨ minor = x ∧
    first < y := by
  show strcmpLess (48 :: 46 :: digit minor :: 46 :: digit first :: rest) (release x y) = true ↔ _
  rw [minor_less_iff small bound, strcmpLess_cons, strcmpLess_cons, digit_lt_iff small' bound',
    not_strcmpLess_nil]
  simp only [UInt8.lt_irrefl, true_and, false_or, Bool.false_eq_true, and_false, or_false]

end Orders

section Steps

/-- Every step is to `0.` and two digits, from 0.2.0 on. -/
theorem steps_release (type : DocumentType) : ∀ target ∈ steps type,
    ∃ x < 10, ∃ y < 10, 2 ≤ x ∧ target = release x y := by
  cases type <;> decide +kernel

/-- There is a step to the first release of each minor version, up to the current one. -/
theorem minor_mem_steps (type : DocumentType) : ∃ minor < 10, ∃ micro < 10,
    currentVersion type = release minor micro ∧ ∀ x < minor + 1, 2 ≤ x → release x 0 ∈ steps type := by
  cases type <;> decide +kernel

theorem first_mem_steps (type : DocumentType) : release 2 0 ∈ steps type := by
  cases type <;> decide +kernel

theorem scanVersion_release : ∀ x < 10, ∀ y < 10, scanVersion (release x y) = some ⟨0, x, y⟩ := by
  decide +kernel

end Steps

section Agreement

variable {type : DocumentType} {version : List UInt8} {v : Version} {x y : ℕ}

/-- A version that is earlier than the current one begins with a zero, and its minor version is no
later. -/
theorem before_current (older : earlier version (currentVersion type) = true)
    (read : scanVersion version = some v) : v.major = 0 ∧ ∃ minor micro, minor < 10 ∧ micro < 10 ∧
      currentVersion type = release minor micro ∧
      (v.minor < minor ∨ v.minor = minor ∧ v.micro < micro) ∧ ∀ x ≤ minor, 2 ≤ x →
      release x 0 ∈ steps type := by
  obtain ⟨minor, small, micro, small', current, members⟩ := minor_mem_steps type
  rw [current, earlier, read, scanVersion_release minor small micro small'] at older
  rw [Version.less_iff] at older
  simp only at older
  refine ⟨by omega, minor, micro, small, small', current, by omega, fun x le => members x (by omega)⟩

theorem earlier_release_iff (read : scanVersion version = some v) (zero : v.major = 0) (small : x < 10)
    (small' : y < 10) : earlier version (release x y) = true ↔ v.minor < x ∨ v.minor = x ∧
    v.micro < y := by
  rw [earlier, read, scanVersion_release x small y small']
  rw [Version.less_iff, zero]
  simp only [Nat.lt_irrefl, true_and, false_or]

theorem scanInt_one {n : ℕ} (small : n < 10) (rest : List UInt8) :
    scanInt (digit n :: 46 :: rest) = some (n, 46 :: rest) := by
  have good := isDigit_digit small
  have ends : (46 :: rest).takeWhile isDigit = [] := List.takeWhile_cons_of_neg (by decide)
  rw [scanInt, takeSign_digits good, List.takeWhile_cons_of_pos good, if_neg (List.cons_ne_nil _ _),
    List.dropWhile_cons_of_pos good, List.dropWhile_cons_of_neg (by decide), strtol_one good ends,
    toNat_digit small]
  congr 2
  omega

/-- The minor version is the second digit, where a full stop follows it. -/
theorem scanVersion_plain {minor first : ℕ} {rest : List UInt8} (small : minor < 10)
    (read : scanVersion (release minor first ++ rest) = some v) : v.minor = minor := by
  have zero : scanInt (release minor first ++ rest) =
      some (0, 46 :: digit minor :: 46 :: digit first :: rest) :=
    scanInt_one (by decide : 0 < 10) _
  simp only [scanVersion, zero, Option.bind_eq_bind, Option.bind_some, scanStop, scanInt_one small,
    Option.bind_eq_some_iff, Option.pure_def, Option.some.injEq] at read
  obtain ⟨-, -, rfl⟩ := read
  rfl

theorem strcmpLess_trans {s t u : List UInt8} (first : strcmpLess s t = true)
    (second : strcmpLess t u = true) : strcmpLess s u = true := by
  induction s generalizing t u with
  | nil =>
    cases u with
    | nil => rw [not_strcmpLess_nil] at second; exact nomatch second
    | cons c u => rfl
  | cons a s ih =>
    cases t with
    | nil => exact nomatch first
    | cons b t =>
      cases u with
      | nil => exact nomatch second
      | cons c u =>
        rw [strcmpLess_cons] at first second ⊢
        rcases first with less | ⟨rfl, tails⟩
        · refine Or.inl (second.elim (UInt8.lt_trans less) fun same => same.1 ▸ less)
        · exact second.imp_right fun same => ⟨same.1, ih tails same.2⟩

/-- **On the texts in order the comparisons agree.** -/
theorem Ordered.agree (older : earlier version (currentVersion type) = true)
    (ordered : Ordered type version) : Agree type version := by
  intro target member
  obtain ⟨x, small, y, small', late, rfl⟩ := steps_release type target member
  rw [Bool.eq_iff_iff]
  cases ordered with
  | early read less text =>
    obtain ⟨zero, -⟩ := before_current older read
    rw [earlier_release_iff read zero small small']
    rw [Version.less_iff, zero] at less
    simp only at less
    refine iff_of_true ?_ (by omega)
    -- no step comes before 0.2.0 as a text
    by_cases same : x = 2 ∧ y = 0
    · obtain ⟨rfl, rfl⟩ := same
      exact text
    · have later : strcmpLess (release 2 0 ++ []) (release x y) = true :=
        (plain_less_iff (by decide) (by decide) small small').2 (by omega)
      exact strcmpLess_trans text later
  | plain read bound bound' text between =>
    obtain ⟨zero, -⟩ := before_current older read
    rw [earlier_release_iff read zero small small']
    subst text
    rw [plain_less_iff bound bound' small small', scanVersion_plain bound read]
    refine or_congr_right (and_congr_right fun same => ?_)
    exact between y small' (same ▸ member)
  | overflow read bound bound' text same behind =>
    obtain ⟨zero, -⟩ := before_current older read
    rw [earlier_release_iff read zero small small']
    subst text
    rw [long_less_iff bound bound' small, same]
    refine (or_iff_left ?_).symm
    rintro ⟨rfl, less⟩
    exact absurd less (Nat.not_lt.2 (behind y small' member))

/-- **Where the comparisons agree, the text is in order.** -/
theorem Agree.ordered (older : earlier version (currentVersion type) = true)
    (agree : Agree type version) : Ordered type version := by
  obtain ⟨v, read⟩ : ∃ v, scanVersion version = some v := by
    cases read : scanVersion version with
    | none => rw [earlier, read] at older; exact nomatch older
    | some v => exact ⟨v, rfl⟩
  obtain ⟨zero, minor, micro, small, small', current, before, members⟩ := before_current older read
  have at_step : ∀ x < 10, ∀ y < 10, release x y ∈ steps type →
      (strcmpLess version (release x y) = true ↔ v.minor < x ∨ v.minor = x ∧ v.micro < y) := by
    intro x bound y bound' member
    rw [agree _ member, earlier_release_iff read zero bound bound']
  have last : strcmpLess version (release minor micro) = true := by
    rw [agree _ (current ▸ current_mem_steps type), ← current, older]
  have early : strcmpLess version (release 2 0) = true → Ordered type version := by
    intro less
    have numbers := (at_step 2 (by decide) 0 (by decide) (first_mem_steps type)).1 less
    exact .early read (Version.less_iff.2 (Or.inr ⟨zero, numbers⟩)) less
  cases shape_of_scanVersion read with
  | low low => exact early (strcmpLess_cons.2 (Or.inl low))
  | high high =>
    rcases strcmpLess_cons.1 last with less | ⟨same, -⟩
    · exact absurd less (UInt8.lt_asymm high)
    · exact absurd same.symm (UInt8.ne_of_lt high)
  | leading bound => exact absurd last (leading_not_less bound)
  | lowMinor low => exact early (lowMinor_less low (by decide))
  | @long digits next rest bound bound' =>
    have text : ∀ x < 10, ∀ y < 10, release x y ∈ steps type →
        (digits < x ↔ v.minor < x ∨ v.minor = x ∧ v.micro < y) := by
      intro x small y small' member
      rw [← at_step x small y small' member, long_less_iff bound bound' small]
    rw [long_less_iff bound bound' small] at last
    by_cases late : 2 ≤ digits
    · have own := text digits bound 0 (by decide) (members digits last.le late)
      have following := text (digits + 1) (by omega) 0 (by decide)
        (members (digits + 1) last (by omega))
      have same : v.minor = digits := by omega
      refine .overflow read bound bound' rfl same fun y small' member => ?_
      have behind := text digits bound y small' member
      omega
    · exact early ((long_less_iff bound bound' (by decide)).2 (by omega))
  | @lowMicro c rest bound low =>
    by_cases late : 2 ≤ v.minor
    · have own := at_step v.minor bound 0 (by decide) (members v.minor (by omega) late)
      rw [lowMicro_less_iff low bound bound (by decide)] at own
      omega
    · exact early ((lowMicro_less_iff low bound (by decide) (by decide)).2 (by omega))
  | @plain first rest bound bound' =>
    refine .plain read bound bound' rfl fun y small member => ?_
    have same := at_step v.minor bound y small member
    rw [plain_less_iff bound bound' bound small] at same
    omega

/-- **A document of an earlier version than the current one is brought to it by exactly the steps to
later versions, if and only if the text of its version is in order.** -/
theorem migrates_iff (older : earlier version (currentVersion type) = true) :
    Migrates type version ↔ Ordered type version :=
  (migrates_iff_agree older).trans ⟨Agree.ordered older, Ordered.agree older⟩

/-- A version of two digits behind the zero is in order. -/
theorem release_ordered (type : DocumentType) (small : x < 10) (small' : y < 10) :
    Ordered type (release x y) :=
  .plain (scanVersion_release x small y small') small small' (List.append_nil _).symm fun _ _ _ =>
    Iff.rfl

theorem migrates_released : Migrates .flow (release 3 7) :=
  (migrates_iff (by decide +kernel)).2 (release_ordered .flow (by decide) (by decide))

/-- A flow of version 0.3.10 passes through the steps from 0.3.2 on. -/
theorem two_digits : ¬ ∀ type version, earlier version (currentVersion type) = true →
    Migrates type version := by
  intro all
  have older : earlier (ascii "0.3.10") (currentVersion .flow) = true := by decide +kernel
  have agree := (migrates_iff_agree older).1 (all .flow (ascii "0.3.10") older) (ascii "0.3.2")
    (by decide +kernel)
  exact absurd agree (by decide +kernel)

end Agreement

end Gebr.Geoxml.VersionSteps
