/-
**A list of paths, from one program to another.**

A comma in a path is doubled, and the paths are joined with single commas. The daemon reads the text
byte by byte and looks one byte ahead: two commas are one of a path, one comma or the last byte ends
a path.

* `escapePath`, `joinPaths`: the text that is sent.
* `parseCommaSeparatedString`: the paths that are read, each with its home directory.
* `parse_next`, `parse_last`: a path in front of another one, and the last one.
* `parse_joinPaths_iff` — **the paths are read as they were sent** iff the last one does not end in
  a comma.
* `last_comma`: a path that does is lost.
-/

import Gebr.Geoxml.HomePath
import Gebr.Lib.Components

namespace Gebr.Geoxml.PathList

open Gebr.Lib Gebr.Lib.CString

section Model

/-- `gebr_geoxml_escape_path`. -/
def escapePath (path : Text) : Text := [44, 44].intercalate (gStrsplit 44 0 path)

/-- The paths in one text: each behind a comma, without the first comma. -/
def joinPaths (paths : List Text) : Text := (paths.flatMap fun path => 44 :: escapePath path).drop 1

/-- The loop of `parse_comma_separated_string`, with the path that is being read. -/
def parseLoop (home : Text) : Text → Text → List Text
  | _, [] => []
  | path, 44 :: 44 :: str => parseLoop home (path ++ [44]) str
  | path, b :: str =>
    if b = 44 ∨ str = [] then
      pathResolveHomeVariable home (if b = 44 then path else path ++ [b]) :: parseLoop home [] str
    else parseLoop home (path ++ [b]) str

/-- `parse_comma_separated_string`. -/
def parseCommaSeparatedString (home str : Text) : List Text := parseLoop home [] str

end Model

section Escape

/-- A byte with a comma doubled. -/
def double (b : UInt8) : Text := if b = 44 then [44, 44] else [b]

theorem flatMap_double_comma (path : Text) :
    (44 :: path).flatMap double = 44 :: 44 :: path.flatMap double := rfl

theorem flatMap_double_byte {b : UInt8} (apart : b ≠ 44) (path : Text) :
    (b :: path).flatMap double = b :: path.flatMap double := by
  rw [List.flatMap_cons]
  unfold double
  rw [if_neg apart]
  rfl

theorem intercalate_splitOn (s : Text) : [44, 44].intercalate (s.splitOn 44) = s.flatMap double := by
  induction s with
  | nil => rfl
  | cons b s ih =>
    rw [List.splitOn_cons_eq_if_modifyHead]
    by_cases comma : b = 44
    · rw [if_pos (beq_iff_eq.2 comma), List.intercalate_cons_of_ne_nil (List.splitOn_ne_nil 44 s),
        ih, comma, flatMap_double_comma]
      rfl
    · obtain ⟨token, tokens, shape⟩ := List.exists_cons_of_ne_nil (List.splitOn_ne_nil 44 s)
      rw [if_neg (beq_iff_eq.not.2 comma), flatMap_double_byte comma, ← ih, shape,
        List.modifyHead_cons]
      cases tokens with
      | nil => rw [List.intercalate_singleton, List.intercalate_singleton]
      | cons next tokens =>
        rw [List.intercalate_cons_cons, List.intercalate_cons_cons]
        rfl

/-- **Each comma is doubled.** -/
theorem escapePath_eq (path : Text) : escapePath path = path.flatMap double := by
  unfold escapePath
  rw [Components.gStrsplit_eq]
  split
  · rename_i nothing
    rw [nothing]
    rfl
  · exact intercalate_splitOn path

theorem flatMap_double_ne_nil {path : Text} (some_byte : path ≠ []) : path.flatMap double ≠ [] := by
  obtain ⟨b, rest, rfl⟩ := List.exists_cons_of_ne_nil some_byte
  rw [List.flatMap_cons]
  unfold double
  split <;> exact List.cons_ne_nil _ _

end Escape

section Parse

variable {home : Text}

theorem parseLoop_double (path str : Text) :
    parseLoop home path (44 :: 44 :: str) = parseLoop home (path ++ [44]) str := by rw [parseLoop]

theorem parseLoop_byte {b : UInt8} (apart : b ≠ 44) {str : Text} (more : str ≠ []) (path : Text) :
    parseLoop home path (b :: str) = parseLoop home (path ++ [b]) str := by
  rw [parseLoop]
  · rw [if_neg (not_or.2 ⟨apart, more⟩)]
  · rintro rest rfl
    exact absurd rfl apart

theorem parseLoop_end {b : UInt8} (apart : b ≠ 44) (path : Text) :
    parseLoop home path [b] = [pathResolveHomeVariable home (path ++ [b])] := by
  rw [parseLoop]
  · rw [if_pos (.inr rfl), if_neg apart, parseLoop]
  · rintro rest rfl
    exact absurd rfl apart

theorem parseLoop_comma {b : UInt8} (apart : b ≠ 44) (str path : Text) :
    parseLoop home path (44 :: b :: str) = pathResolveHomeVariable home path :: parseLoop home []
    (b :: str) := by
  rw [parseLoop]
  · rw [if_pos (.inl rfl), if_pos rfl]
  · rintro rest - same
    exact absurd (List.cons.inj same).1 apart

/-- **A path in front of another one.** -/
theorem parse_next {b : UInt8} (apart : b ≠ 44) (front path rest : Text) :
    parseLoop home front (path.flatMap double ++ 44 :: b :: rest) =
      pathResolveHomeVariable home (front ++ path) :: parseLoop home [] (b :: rest) := by
  induction path generalizing front with
  | nil =>
    rw [List.append_nil]
    exact parseLoop_comma apart rest front
  | cons c path ih =>
    by_cases comma : c = 44
    · rw [comma, flatMap_double_comma, List.cons_append, List.cons_append, parseLoop_double, ih,
        List.append_assoc]
      rfl
    · rw [flatMap_double_byte comma, List.cons_append, parseLoop_byte comma (by simp), ih,
        List.append_assoc]
      rfl

/-- **The last path**: it is read when its last byte is no comma. -/
theorem parse_last (front : Text) {path : Text} (some_byte : path ≠ []) :
    parseLoop home front (path.flatMap double) =
      if path.getLast? = some 44 then [] else [pathResolveHomeVariable home (front ++ path)] := by
  induction path generalizing front with
  | nil => exact absurd rfl some_byte
  | cons c path ih =>
    by_cases comma : c = 44
    · rw [comma, flatMap_double_comma, parseLoop_double]
      cases path with
      | nil => rfl
      | cons d path =>
        rw [ih (front ++ [44]) (List.cons_ne_nil d path), List.append_assoc, List.getLast?_cons_cons]
        rfl
    · rw [flatMap_double_byte comma]
      cases path with
      | nil =>
        rw [if_neg (by simpa using comma)]
        exact parseLoop_end comma front
      | cons d path =>
        have more := flatMap_double_ne_nil (List.cons_ne_nil d path)
        rw [parseLoop_byte comma more, ih (front ++ [c]) (List.cons_ne_nil d path), List.append_assoc,
          List.getLast?_cons_cons]
        rfl

end Parse

section Lists

variable {home : Text} {paths : List Text}

/-- A path that is not empty and does not start with a comma. -/
def Plain (path : Text) : Prop := ∃ b rest, path = b :: rest ∧ b ≠ 44

theorem joinPaths_cons (path : Text) (next : Text) (paths : List Text) :
    joinPaths (path :: next :: paths) = path.flatMap double ++ 44 :: joinPaths (next :: paths) := by
  unfold joinPaths
  rw [List.flatMap_cons, List.flatMap_cons, escapePath_eq path]
  rfl

theorem joinPaths_one (path : Text) : joinPaths [path] = path.flatMap double := by
  unfold joinPaths
  rw [List.flatMap_cons, escapePath_eq path]
  exact List.append_nil _

/-- Joined paths begin with the first byte of the first one. -/
theorem joinPaths_begins {path : Text} (plain : Plain path) (paths : List Text) :
    ∃ b rest, joinPaths (path :: paths) = b :: rest ∧ b ≠ 44 := by
  obtain ⟨b, rest, rfl, apart⟩ := plain
  cases paths with
  | nil => exact ⟨b, rest.flatMap double, by rw [joinPaths_one, flatMap_double_byte apart], apart⟩
  | cons next paths =>
    refine ⟨b, rest.flatMap double ++ 44 :: joinPaths (next :: paths), ?_, apart⟩
    rw [joinPaths_cons, flatMap_double_byte apart, List.cons_append]

/-- **What is read**: every path, but the last one only if its last byte is no comma. -/
theorem parse_joinPaths (plain : ∀ path ∈ paths, Plain path) {last : Text} (ends : Plain last) :
    parseCommaSeparatedString home (joinPaths (paths ++ [last])) =
      paths.map (pathResolveHomeVariable home) ++
        if last.getLast? = some 44 then [] else [pathResolveHomeVariable home last] := by
  unfold parseCommaSeparatedString
  induction paths with
  | nil =>
    obtain ⟨b, rest, rfl, -⟩ := ends
    rw [List.nil_append, joinPaths_one, parse_last [] (List.cons_ne_nil b rest)]
    rfl
  | cons path paths ih =>
    have later := ih fun one member => plain one (List.mem_cons_of_mem path member)
    obtain ⟨next, others, shape⟩ : ∃ next others, paths ++ [last] = next :: others :=
      List.exists_cons_of_ne_nil (by simp)
    have begins : Plain next := by
      have member : next ∈ paths ++ [last] := by
        rw [shape]
        exact List.mem_cons_self
      rcases List.mem_append.1 member with front | back
      · exact plain next (List.mem_cons_of_mem path front)
      · exact List.mem_singleton.1 back ▸ ends
    obtain ⟨b, rest, text, apart⟩ := joinPaths_begins begins others
    rw [List.cons_append, shape, joinPaths_cons, text, parse_next apart, ← text, ← shape, later,
      List.nil_append, List.map_cons, List.cons_append]

/-- **The paths are read as they were sent** iff the last one does not end in a comma. -/
theorem parse_joinPaths_iff (home : Text) (plain : ∀ path ∈ paths, Plain path) :
    parseCommaSeparatedString home (joinPaths paths) = paths.map (pathResolveHomeVariable home) ↔
      ∀ path ∈ paths.getLast?, path.getLast? ≠ some 44 := by
  rcases List.eq_nil_or_concat' paths with rfl | ⟨front, last, rfl⟩
  · exact iff_of_true rfl nofun
  · rw [parse_joinPaths (fun path member => plain path (List.mem_append_left _ member))
      (plain last (List.mem_append_right _ List.mem_cons_self)), List.map_append,
        List.append_cancel_left_eq,
      List.getLast?_concat]
    by_cases comma : last.getLast? = some 44
    · rw [if_pos comma]
      exact iff_of_false nofun fun all => all last rfl comma
    · rw [if_neg comma]
      exact iff_of_true rfl fun path same => Option.some.inj same ▸ comma

theorem parse_joinPaths_iff_pair :
    parseCommaSeparatedString (ascii "/home/ann") (joinPaths [ascii "$HOME/a,,b,", ascii "/c"]) =
        [ascii "$HOME/a,,b,", ascii "/c"].map (pathResolveHomeVariable (ascii "/home/ann")) ↔
      ∀ path ∈ [ascii "$HOME/a,,b,", ascii "/c"].getLast?, path.getLast? ≠ some 44 := by
  refine parse_joinPaths_iff (ascii "/home/ann") fun path member => ?_
  rcases List.mem_cons.1 member with rfl | rest
  · exact ⟨36, ascii "HOME/a,,b,", rfl, by decide⟩
  · rw [List.mem_singleton.1 rest]
    exact ⟨47, ascii "c", rfl, by decide⟩

/-- **A last path that ends in a comma is lost.** -/
theorem last_comma :
    parseCommaSeparatedString (ascii "/home/ann") (joinPaths [ascii "/a", ascii "/b,"]) =
    [ascii "/a"] := by
  decide

end Lists

end Gebr.Geoxml.PathList
