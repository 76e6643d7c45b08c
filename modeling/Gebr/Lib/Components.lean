/-
**Paths and their components.**

* `gStrsplit_eq`: `g_strsplit` makes the components, and none of the empty path.
* `Behind`: what may be behind a whole component.
* `splitOn_append`: the components of a path and of what is behind it.
* `splitOn_prefix_iff` — **the components of a path are the first ones of another path iff that path
  goes on with a separator, or not at all**.
* `head?_gStrsplit_iff`: the first component of a path.
* `names`: the components that are not empty.
* `flatten_names`: they are the path without its separators.
-/

import Gebr.Lib.CString

namespace Gebr.Lib.Components

open Gebr.Lib.CString

variable {sep : UInt8} {front path rest component : List UInt8}

/-- What may be behind a whole component. -/
def Behind (sep : UInt8) (rest : List UInt8) : Prop := rest = [] ∨ ∃ more, rest = sep :: more

theorem splitTokens_eq {cuts : ℕ} (enough : path.count sep ≤ cuts) :
    splitTokens sep cuts path = path.splitOn sep := by
  induction cuts generalizing path with
  | zero =>
    rw [List.splitOn_eq_singleton (List.count_eq_zero.1 (Nat.le_zero.1 enough))]
    rfl
  | succ cuts ih =>
    rcases eq_clean_or_cut sep path with clean | ⟨front, rest, clean, rfl⟩
    · rw [splitTokens_clean clean, List.splitOn_eq_singleton clean]
    · rw [List.count_append, List.count_eq_zero.2 clean, List.count_cons_self] at enough
      rw [splitTokens_cons clean, ih (by omega), List.splitOn_append_cons_self_of_not_mem clean]

/-- **`g_strsplit` makes the components.** -/
theorem gStrsplit_eq (sep : UInt8) (path : List UInt8) :
    gStrsplit sep 0 path = if path = [] then [] else path.splitOn sep := by
  unfold gStrsplit
  rw [if_pos rfl, splitTokens_eq List.count_le_length]

theorem gStrsplit_of_ne_nil (some_byte : path ≠ []) : gStrsplit sep 0 path = path.splitOn sep := by
  rw [gStrsplit_eq, if_neg some_byte]

theorem not_mem_of_mem_splitOn (member : component ∈ path.splitOn sep) : sep ∉ component := by
  rw [← splitTokens_eq le_rfl] at member
  exact not_mem_of_mem_splitTokens le_rfl member

/-- The components of a path and of what is behind it. -/
theorem splitOn_append (behind : Behind sep rest) (front : List UInt8) :
    (front ++ rest).splitOn sep = front.splitOn sep ++ (rest.splitOn sep).tail := by
  obtain rfl | ⟨more, rfl⟩ := behind
  · rw [List.append_nil, List.splitOn_nil, List.tail_cons, List.append_nil]
  · rw [List.splitOn_append_cons_self, List.splitOn_cons_eq_if_modifyHead,
      if_pos (beq_self_eq_true sep), List.tail_cons]

/-- **The first components of a path.** -/
theorem splitOn_prefix_iff :
    front.splitOn sep <+: path.splitOn sep ↔ ∃ rest, Behind sep rest ∧ path = front ++ rest := by
  constructor
  · rintro ⟨components, same⟩
    have back : [sep].intercalate (path.splitOn sep) = path := List.intercalate_splitOn sep
    cases components with
    | nil =>
      rw [← same, List.append_nil, List.intercalate_splitOn] at back
      exact ⟨[], .inl rfl, by rw [List.append_nil, back]⟩
    | cons component components =>
      have clean : ∀ other ∈ component :: components, sep ∉ other := fun other member =>
        not_mem_of_mem_splitOn (same ▸ List.mem_append_right _ member)
      refine ⟨sep :: [sep].intercalate (component :: components), .inr ⟨_, rfl⟩, ?_⟩
      rw [← back, ← same, ← List.splitOn_intercalate sep clean (List.cons_ne_nil _ _),
        ← List.splitOn_append_cons_self, List.intercalate_splitOn, List.splitOn_intercalate sep clean
          (List.cons_ne_nil _ _)]
  · rintro ⟨rest, behind, rfl⟩
    rw [splitOn_append behind]
    exact List.prefix_append _ _

/-- **The first component of a path.** -/
theorem head?_gStrsplit_iff (some_byte : component ≠ []) :
    (gStrsplit sep 0 path).head? = some component ↔
      sep ∉ component ∧ ∃ rest, Behind sep rest ∧ path = component ++ rest := by
  constructor
  · intro first
    rw [gStrsplit_eq] at first
    split at first
    · exact absurd first nofun
    · have clean := not_mem_of_mem_splitOn (List.mem_of_mem_head? first)
      obtain ⟨others, whole⟩ := List.head?_eq_some_iff.1 first
      refine ⟨clean, splitOn_prefix_iff.1 ?_⟩
      rw [List.splitOn_eq_singleton clean, whole]
      exact List.prefix_append [component] others
  · rintro ⟨clean, rest, behind, rfl⟩
    rw [gStrsplit_of_ne_nil (List.append_ne_nil_of_left_ne_nil some_byte rest), splitOn_append behind,
      List.splitOn_eq_singleton clean]
    rfl

/-- What is behind a path does not change its first component, unless the path is empty. -/
theorem head?_gStrsplit_append (behind : Behind sep rest) (some_byte : component ≠ [])
    (path : List UInt8) : (gStrsplit sep 0 (path ++ rest)).head? = some component ↔
      (gStrsplit sep 0 path).head? = some component := by
  by_cases none : path = []
  · rw [none, List.nil_append]
    refine iff_of_false (fun first => ?_) nofun
    obtain ⟨clean, more, -, rfl⟩ := (head?_gStrsplit_iff some_byte).1 first
    obtain ⟨b, component, rfl⟩ := List.exists_cons_of_ne_nil some_byte
    obtain empty | ⟨_, begins⟩ := behind
    · exact absurd empty (List.cons_ne_nil _ _)
    · obtain rfl := (List.cons.inj begins).1
      exact clean List.mem_cons_self
  · rw [gStrsplit_of_ne_nil (List.append_ne_nil_of_left_ne_nil none rest), gStrsplit_of_ne_nil none,
      splitOn_append behind, List.head?_append_of_ne_nil _ (List.splitOn_ne_nil sep path)]

section Names

/-- The components that are not empty. -/
def names (sep : UInt8) (path : List UInt8) : List (List UInt8) := (path.splitOn sep).filter (· ≠ [])

theorem names_nil (sep : UInt8) : names sep [] = [] := rfl

theorem names_append_cons (sep : UInt8) (front rest : List UInt8) :
    names sep (front ++ sep :: rest) = names sep front ++ names sep rest := by
  unfold names
  rw [List.splitOn_append_cons_self, List.filter_append]

theorem names_cons (sep : UInt8) (rest : List UInt8) : names sep (sep :: rest) = names sep rest := by
  rw [← List.nil_append (sep :: rest), names_append_cons, names_nil, List.nil_append]

/-- **The names of a path are the path without its separators.** -/
theorem flatten_names (sep : UInt8) (path : List UInt8) :
    (names sep path).flatten = path.filter (· ≠ sep) := by
  induction length : path.length using Nat.strong_induction_on generalizing path with
  | h n ih =>
    rcases eq_clean_or_cut sep path with clean | ⟨front, rest, clean, rfl⟩
    · have whole : path.filter (· ≠ sep) = path :=
        List.filter_eq_self.2 fun b member => decide_eq_true (ne_of_mem_of_not_mem member clean)
      rw [whole]
      unfold names
      rw [List.splitOn_eq_singleton clean]
      by_cases none : path = []
      · rw [none]
        rfl
      · rw [List.filter_cons_of_pos (by simpa using none), List.filter_nil, List.flatten_singleton]
    · rw [List.length_append, List.length_cons] at length
      rw [names_append_cons, List.flatten_append, ih front.length (by omega) front rfl,
        ih rest.length (by omega) rest rfl, List.filter_append, List.filter_cons_of_neg (by simp)]

/-- **A path without names** has only separators. -/
theorem names_eq_nil_iff : names sep path = [] ↔ ∀ b ∈ path, b = sep := by
  have flat : path.filter (· ≠ sep) = [] ↔ ∀ b ∈ path, b = sep := by
    rw [List.filter_eq_nil_iff]
    exact forall₂_congr fun b _ => by simp
  rw [← flat, ← flatten_names, List.flatten_eq_nil_iff]
  refine ⟨fun none name member => absurd (none ▸ member) List.not_mem_nil, fun empty => ?_⟩
  refine List.eq_nil_iff_forall_not_mem.2 fun name member => ?_
  exact of_decide_eq_true (List.mem_filter.1 member).2 (empty name member)

theorem filter_gStrsplit (sep : UInt8) (path : List UInt8) :
    (gStrsplit sep 0 path).filter (· ≠ []) = names sep path := by
  rw [gStrsplit_eq]
  split
  · rename_i none
    rw [none]
    rfl
  · rfl

theorem mem_names (member : component ∈ names sep path) : component ≠ [] ∧ sep ∉ component :=
  ⟨of_decide_eq_true (List.mem_filter.1 member).2, not_mem_of_mem_splitOn (List.mem_filter.1 member).1⟩

/-- Components of which each is ended by a separator. -/
theorem names_flatMap {components : List (List UInt8)}
    (whole : ∀ component ∈ components, component ≠ [] ∧ sep ∉ component) :
    names sep (components.flatMap (· ++ [sep])) = components := by
  induction components with
  | nil => rfl
  | cons component components ih =>
    obtain ⟨some_byte, clean⟩ := whole component List.mem_cons_self
    have one : names sep component = [component] := by
      unfold names
      rw [List.splitOn_eq_singleton clean, List.filter_cons_of_pos (by simpa using some_byte),
        List.filter_nil]
    rw [List.flatMap_cons, List.append_assoc, List.singleton_append, names_append_cons, one,
      ih fun other member => whole other (List.mem_cons_of_mem component member),
        List.singleton_append]

end Names

end Gebr.Lib.Components
