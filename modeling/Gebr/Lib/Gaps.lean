/-
**The gaps between the solid elements of a list.**

Every list is a gap followed by solid elements, each with the gap behind it; a gap is a list of
elements that are space.

* `gaps`, `spell`: a list taken apart, and put together; `Formed` is what the parts of a list are.
* `rear`, `mapGaps`, `closed`: the gap at the end, other gaps, and no gap at the end.
* `gaps_spell`: a list has these parts only.
* `gaps_squeeze`: squeezing space is squeezing each gap.
* `gaps_dropWhile`, `gaps_rdropWhile`, `gaps_rdropWhile_solid`: what is left without the space in
  front, without that at the end, and without solid elements at the end.
* `infix_iff`, `mem_iff`: what is space occurs in a gap.
* `head?_eq`, `getLast?_eq`: the first and the last element.
-/

import Gebr.Lib.Separated
import Gebr.Lib.Squeeze
import Mathlib.Data.List.DropRight

namespace Gebr.Lib.Gaps

open Gebr.Lib.Separated Gebr.Lib.Squeeze

section Definitions

variable {α : Type*}

/-- The gap in front, and each solid element with the gap behind it. -/
def gaps (space : α → Bool) : List α → List α × List (α × List α)
  | [] => ([], [])
  | a :: text =>
    if space a then (a :: (gaps space text).1, (gaps space text).2)
    else ([], (a, (gaps space text).1) :: (gaps space text).2)

/-- The list of these parts. -/
def spell (lead : List α) (rest : List (α × List α)) : List α :=
  lead ++ rest.flatMap fun pair => pair.1 :: pair.2

/-- The first gap, and solid elements with gaps. -/
structure Formed (space : α → Bool) (lead : List α) (rest : List (α × List α)) : Prop where
  lead : ∀ a ∈ lead, space a = true
  solid : ∀ pair ∈ rest, space pair.1 = false
  gap : ∀ pair ∈ rest, ∀ a ∈ pair.2, space a = true

/-- The gap at the end. -/
def rear (lead : List α) (rest : List (α × List α)) : List α := (rest.getLast?.map Prod.snd).getD lead

/-- The same with another gap for each. -/
def mapGaps (f : List α → List α) (rest : List (α × List α)) : List (α × List α) :=
  rest.map fun pair => (pair.1, f pair.2)

/-- The same with nothing behind the last solid element. -/
def closed : List (α × List α) → List (α × List α)
  | [] => []
  | [pair] => [(pair.1, [])]
  | pair :: next :: rest => pair :: closed (next :: rest)

end Definitions

section Parts

variable {α : Type*} {space : α → Bool} {lead text : List α} {rest : List (α × List α)}

@[simp] theorem spell_nil (lead : List α) : spell lead [] = lead := List.append_nil lead

theorem spell_cons (lead : List α) (pair : α × List α) (rest : List (α × List α)) :
    spell lead (pair :: rest) = lead ++ pair.1 :: spell pair.2 rest := by
  rw [spell, List.flatMap_cons, List.cons_append]
  rfl

theorem spell_concat (lead : List α) (rest : List (α × List α)) (pair : α × List α) :
    spell lead (rest ++ [pair]) = spell lead rest ++ pair.1 :: pair.2 := by
  rw [spell, List.flatMap_append, List.flatMap_singleton, ← List.append_assoc]
  rfl

theorem Formed.tail {pair : α × List α} (formed : Formed space lead (pair :: rest)) :
    Formed space pair.2 rest :=
  ⟨formed.gap pair List.mem_cons_self, fun other member =>
    formed.solid other (List.mem_cons_of_mem pair member), fun other member => formed.gap other
      (List.mem_cons_of_mem pair member)⟩

theorem Formed.subset {other : List (α × List α)} (formed : Formed space lead rest)
    (fewer : other ⊆ rest) : Formed space lead other :=
  ⟨formed.lead, fun pair member => formed.solid pair (fewer member), fun pair member =>
    formed.gap pair (fewer member)⟩

theorem spell_gaps (space : α → Bool) (text : List α) :
    spell (gaps space text).1 (gaps space text).2 = text := by
  induction text with
  | nil => rfl
  | cons a text ih =>
    rw [gaps]
    split
    · rw [spell, List.cons_append, ← spell, ih]
    · rw [spell_cons, ih, List.nil_append]

theorem gaps_formed (space : α → Bool) (text : List α) :
    Formed space (gaps space text).1 (gaps space text).2 := by
  induction text with
  | nil => exact ⟨nofun, nofun, nofun⟩
  | cons a text ih =>
    rw [gaps]
    split
    · rename_i is
      exact ⟨List.forall_mem_cons.2 ⟨is, ih.lead⟩, ih.solid, ih.gap⟩
    · rename_i other
      exact ⟨nofun, List.forall_mem_cons.2 ⟨Bool.eq_false_iff.2 other, ih.solid⟩,
        List.forall_mem_cons.2 ⟨ih.lead, ih.gap⟩⟩

theorem gaps_append (spaces : ∀ a ∈ lead, space a = true) (text : List α) :
    gaps space (lead ++ text) = (lead ++ (gaps space text).1, (gaps space text).2) := by
  induction lead with
  | nil => rfl
  | cons a lead ih =>
    obtain ⟨is, spaces⟩ := List.forall_mem_cons.1 spaces
    rw [List.cons_append, gaps, if_pos is, ih spaces, List.cons_append]

/-- **A list has these parts only.** -/
theorem gaps_spell (formed : Formed space lead rest) :
    gaps space (spell lead rest) = (lead, rest) := by
  induction rest generalizing lead with
  | nil =>
    rw [spell_nil, ← List.append_nil lead, gaps_append (List.append_nil lead ▸ formed.lead), gaps]
  | cons pair rest ih =>
    have other : ¬ space pair.1 = true := by simp [formed.solid pair List.mem_cons_self]
    rw [spell_cons, gaps_append formed.lead, gaps, if_neg other, ih formed.tail, List.append_nil]

theorem gaps_eq (formed : Formed space lead rest) (same : spell lead rest = text) :
    gaps space text = (lead, rest) :=
  same ▸ gaps_spell formed

theorem filter_spell (formed : Formed space lead rest) :
    (spell lead rest).filter (fun a => !space a) = rest.map Prod.fst := by
  have none {gap : List α} (spaces : ∀ a ∈ gap, space a = true) : gap.filter (fun a => !space a) =
      [] :=
    List.filter_eq_nil_iff.2 fun a member => by simp [spaces a member]
  induction rest generalizing lead with
  | nil => rw [spell_nil, none formed.lead, List.map_nil]
  | cons pair rest ih =>
    have solid := formed.solid pair List.mem_cons_self
    rw [spell_cons, List.filter_append, none formed.lead, List.nil_append,
      List.filter_cons_of_pos (by simp [solid]), ih formed.tail, List.map_cons]

theorem map_fst_gaps (space : α → Bool) (text : List α) :
    (gaps space text).2.map Prod.fst = text.filter fun a => !space a := by
  rw [← filter_spell (gaps_formed space text), spell_gaps]

end Parts

section Squeeze

variable {α : Type*} {space p : α → Bool} {least : ℕ} {one : α} {text : List α}

theorem squeeze_spell {lead : List α} {rest : List (α × List α)}
    (solid : ∀ pair ∈ rest, p pair.1 = false) : squeeze p least one (spell lead rest) =
      spell (squeeze p least one lead) (mapGaps (squeeze p least one) rest) := by
  induction rest generalizing lead with
  | nil => rw [spell_nil, mapGaps, List.map_nil, spell_nil]
  | cons pair rest ih =>
    obtain ⟨other, solid⟩ := List.forall_mem_cons.1 solid
    rw [spell_cons, squeeze_append_cons other, ih solid, mapGaps, mapGaps, List.map_cons, spell_cons]

theorem gaps_squeeze (kind : ∀ a, p a = true → space a = true) (new : space one = true)
    (text : List α) : gaps space (squeeze p least one text) =
      (squeeze p least one (gaps space text).1,
      mapGaps (squeeze p least one) (gaps space text).2) := by
  have formed := gaps_formed space text
  have kept {gap : List α} (spaces : ∀ a ∈ gap, space a = true) : ∀ a ∈ squeeze p least one gap,
      space a = true :=
    fun a member => (mem_squeeze member).elim (spaces a) fun same => same ▸ new
  refine gaps_eq ⟨kept formed.lead, ?_, ?_⟩ ?_
  · exact List.forall_mem_map.2 formed.solid
  · exact List.forall_mem_map.2 fun pair member => kept (formed.gap pair member)
  · rw [← squeeze_spell fun pair member => ?_, spell_gaps]
    cases is : p pair.1 with
    | false => rfl
    | true => exact nomatch (formed.solid pair member).symm.trans (kind _ is)

end Squeeze

section Ends

variable {α : Type*} {space : α → Bool} {lead text : List α} {rest : List (α × List α)}

theorem rear_concat (lead : List α) (rest : List (α × List α)) (pair : α × List α) :
    rear lead (rest ++ [pair]) = pair.2 := by
  rw [rear, List.getLast?_concat]
  rfl

theorem rear_mapGaps (f : List α → List α) (lead : List α) (rest : List (α × List α)) :
    rear (f lead) (mapGaps f rest) = f (rear lead rest) := by
  rcases List.eq_nil_or_concat' rest with rfl | ⟨front, pair, rfl⟩
  · rfl
  · rw [rear_concat, mapGaps, List.map_append, List.map_singleton, rear_concat]

theorem closed_concat (rest : List (α × List α)) (pair : α × List α) :
    closed (rest ++ [pair]) = rest ++ [(pair.1, [])] := by
  induction rest with
  | nil => rfl
  | cons first rest ih =>
    cases rest with
    | nil => rfl
    | cons second rest => exact congrArg (first :: ·) ih

theorem dropWhile_spell (formed : Formed space lead rest) :
    (spell lead rest).dropWhile space = spell [] rest := by
  rw [spell, List.dropWhile_append_of_pos formed.lead]
  cases rest with
  | nil => rfl
  | cons pair rest =>
    rw [List.flatMap_cons, List.cons_append,
      List.dropWhile_cons_of_neg (by simp [formed.solid pair List.mem_cons_self])]
    rfl

theorem gaps_dropWhile (space : α → Bool) (text : List α) :
    gaps space (text.dropWhile space) = ([], (gaps space text).2) := by
  have formed := gaps_formed space text
  refine gaps_eq ⟨nofun, formed.solid, formed.gap⟩ ?_
  rw [← dropWhile_spell formed, spell_gaps]

theorem rdropWhile_append_spaces {gap : List α} (spaces : ∀ a ∈ gap, space a = true) (text : List α) :
    (text ++ gap).rdropWhile space = text.rdropWhile space := by
  induction gap using List.reverseRecOn with
  | nil => rw [List.append_nil]
  | append_singleton gap a ih =>
    have is := spaces a (List.mem_append_right gap List.mem_cons_self)
    rw [← List.append_assoc, List.rdropWhile_concat_pos _ _ _ is]
    exact ih fun b member => spaces b (List.mem_append_left [a] member)

/-- Without the space behind the last solid element. -/
theorem gaps_rdropWhile (some_solid : (gaps space text).2 ≠ []) :
    gaps space (text.rdropWhile space) = ((gaps space text).1, closed (gaps space text).2) := by
  have formed := gaps_formed space text
  obtain ⟨front, pair, parts⟩ := (List.eq_nil_or_concat' (gaps space text).2).resolve_left some_solid
  have member : pair ∈ (gaps space text).2 := parts ▸ List.mem_append_right front List.mem_cons_self
  have solid : ¬ space pair.1 = true := by simp [formed.solid pair member]
  have formed' : Formed space (gaps space text).1 (front ++ [(pair.1, [])]) := by
    rw [parts] at formed
    refine ⟨formed.lead, fun other inside => ?_, fun other inside => ?_⟩
    · rcases List.mem_append.1 inside with before | last
      · exact formed.solid other (List.mem_append_left _ before)
      · exact List.mem_singleton.1 last ▸ formed.solid pair
          (List.mem_append_right front List.mem_cons_self)
    · rcases List.mem_append.1 inside with before | last
      · exact formed.gap other (List.mem_append_left _ before)
      · rw [List.mem_singleton.1 last]
        exact nofun
  rw [parts, closed_concat]
  refine gaps_eq formed' ?_
  conv_rhs => rw [← spell_gaps space text, parts, spell_concat]
  have split (front : List α) : front ++ pair.1 :: pair.2 = (front ++ [pair.1]) ++ pair.2 := by
    rw [List.append_assoc, List.singleton_append]
  rw [split, rdropWhile_append_spaces (formed.gap pair member), List.rdropWhile_concat_neg _ _ _
    solid, spell_concat]

/-- Without the solid elements of a kind at the end. -/
theorem gaps_rdropWhile_solid {p : α → Bool} (solid : ∀ a, p a = true → space a = false)
    (text : List α) : gaps space (text.rdropWhile p) = ((gaps space text).1,
      (gaps space text).2.rdropWhile fun pair => p pair.1 && pair.2.isEmpty) := by
  have ends : ∀ (lead : List α) (rest : List (α × List α)), Formed space lead rest →
      (spell lead rest).rdropWhile p =
          spell lead (rest.rdropWhile fun pair => p pair.1 && pair.2.isEmpty) := by
    have stops {a : α} (is : space a = true) : ¬ p a = true := fun kind => nomatch is.symm.trans
      (solid a kind)
    intro lead rest formed
    induction rest using List.reverseRecOn with
    | nil =>
      rw [List.rdropWhile_nil, spell_nil]
      rcases List.eq_nil_or_concat' lead with rfl | ⟨front, a, rfl⟩
      · exact List.rdropWhile_nil p
      · exact List.rdropWhile_concat_neg _ _ _
          (stops (formed.lead a (List.mem_append_right front List.mem_cons_self)))
    | append_singleton rest pair ih =>
      obtain ⟨b, gap⟩ := pair
      rw [spell_concat]
      rcases List.eq_nil_or_concat' gap with rfl | ⟨front, a, rfl⟩
      · cases kind : p b with
        | true =>
          rw [List.rdropWhile_concat_pos _ _ _ kind, List.rdropWhile_concat_pos _ _ _ (by simp [kind])]
          exact ih (formed.subset (List.subset_append_left rest _))
        | false =>
          rw [List.rdropWhile_concat_neg _ _ _ (by simp [kind]), List.rdropWhile_concat_neg _ _ _
            (by simp [kind]), spell_concat]
      · have is := formed.gap (b, front ++ [a]) (List.mem_append_right rest List.mem_cons_self) a
          (List.mem_append_right front List.mem_cons_self)
        rw [← List.cons_append, ← List.append_assoc, List.rdropWhile_concat_neg _ _ _ (stops is),
          List.rdropWhile_concat_neg _ _ _ (by simp), spell_concat, List.append_assoc]
        rfl
  have formed := gaps_formed space text
  refine gaps_eq (formed.subset (List.rdropWhile_prefix _ _).subset) ?_
  rw [← ends _ _ formed, spell_gaps]

theorem head?_eq (space : α → Bool) (text : List α) :
    text.head? = (gaps space text).1.head?.or ((gaps space text).2.head?.map Prod.fst) := by
  conv_lhs => rw [← spell_gaps space text]
  rw [spell, List.head?_append]
  cases (gaps space text).2 with
  | nil => rfl
  | cons pair rest => rfl

/-- The last element: of the gap at the end, or the last solid one. -/
theorem getLast?_eq (space : α → Bool) (text : List α) :
    text.getLast? = (rear (gaps space text).1 (gaps space text).2).getLast?.or
      ((gaps space text).2.getLast?.map Prod.fst) := by
  conv_lhs => rw [← spell_gaps space text]
  rcases List.eq_nil_or_concat' (gaps space text).2 with none | ⟨front, pair, parts⟩
  · rw [none, spell_nil]
    exact Option.or_none.symm
  · rw [parts, spell_concat, rear_concat, List.getLast?_concat, List.getLast?_append_cons]
    rcases List.eq_nil_or_concat' pair.2 with empty | ⟨gap, a, whole⟩
    · rw [empty]
      rfl
    · rw [whole, ← List.cons_append, List.getLast?_concat, List.getLast?_concat]
      rfl

end Ends

section Occurrences

variable {α : Type*} {space : α → Bool} {text word : List α}

/-- **What is space occurs in a gap.** -/
theorem infix_iff (spaces : ∀ a ∈ word, space a = true) (text : List α) :
    word <:+: text ↔ word <:+: (gaps space text).1 ∨ ∃ pair ∈ (gaps space text).2,
    word <:+: pair.2 := by
  have parts : ∀ (lead : List α) (rest : List (α × List α)), Formed space lead rest →
      (word <:+: spell lead rest ↔ word <:+: lead ∨ ∃ pair ∈ rest, word <:+: pair.2) := by
    intro lead rest formed
    induction rest generalizing lead with
    | nil => simp
    | cons pair rest ih =>
      have clean : pair.1 ∉ word := fun member =>
        nomatch (spaces _ member).symm.trans (formed.solid pair List.mem_cons_self)
      rw [spell_cons, List.exists_mem_cons_iff, ← ih pair.2 formed.tail]
      constructor
      · exact infix_cut clean
      · rintro (before | behind)
        · exact before.trans (List.prefix_append _ _).isInfix
        · exact behind.trans ⟨lead ++ [pair.1], [], by simp⟩
  conv_lhs => rw [← spell_gaps space text]
  exact parts _ _ (gaps_formed space text)

theorem mem_iff {a : α} (is : space a = true) (text : List α) :
    a ∈ text ↔ a ∈ (gaps space text).1 ∨ ∃ pair ∈ (gaps space text).2, a ∈ pair.2 := by
  have one := @infix_iff _ space [a] (by simpa using is) text
  simpa only [List.singleton_infix_iff] using one

end Occurrences

end Gebr.Lib.Gaps
