/-
**The uri of a request: a prefix and parameters.**

The text of a uri is `prefix?key=value;key=value`, with the values escaped.

* `gebrCommUriToString`, `gebrCommUriParse`: the text of a uri, and a uri read from a text.
* `parse_isSome_iff`: the texts that are read.
* `roundTrips_iff`: the uris that are read back from their text.
* `codec_iff`: the two together.
-/

import Gebr.Comm.HttpHeaders
import Gebr.Lib.Percent

namespace Gebr.Comm

open Gebr.Lib.CString Gebr.Lib.Percent

section Model

/-- `GebrCommUri`. A value that could not be read is `NULL`. -/
structure GebrCommUri where
  uriPrefix : Option Bytes
  params : Headers
  deriving DecidableEq, Repr

/-- `gebr_comm_uri_new`. -/
def gebrCommUriNew : GebrCommUri := ⟨none, []⟩

/-- `gebr_comm_uri_set_prefix`. -/
def gebrCommUriSetPrefix (uri : GebrCommUri) (first : Bytes) : GebrCommUri :=
  { uri with uriPrefix := some first }

/-- `gebr_comm_uri_add_param`. -/
def gebrCommUriAddParam (uri : GebrCommUri) (key : Bytes) (value : Option Bytes) : GebrCommUri :=
  { uri with params := headersInsert key value uri.params }

/-- `concatenate_uri`; `%s` prints a `NULL` as `(null)`. -/
def concatenateUri (entry : Bytes × Option Bytes) : Bytes :=
  entry.1 ++ 61 :: (entry.2.map gUriEscapeString).getD (ascii "(null)") ++ [59]

/-- `gebr_comm_uri_to_string`: the last byte is erased if it is a semicolon, whatever it is from. -/
def gebrCommUriToString (order : HeaderOrder) (uri : GebrCommUri) : Bytes :=
  let buffer := uri.uriPrefix.getD []
  let buffer := if uri.params = [] then buffer else buffer ++ [63]
  let buffer := buffer ++ (order.entries uri.params).flatMap concatenateUri
  if buffer.getLast? = some 59 then buffer.dropLast else buffer

/-- A turn of the loop on the parameters: without an equals sign it writes through `NULL`. -/
def parseParam (uri : GebrCommUri) (param : Bytes) : Option GebrCommUri :=
  match param.dropWhile (· ≠ 61) with
  | [] => none
  | _ :: value =>
    some (gebrCommUriAddParam uri (param.takeWhile (· ≠ 61)) (gUriUnescapeString value))

/-- The parameters of a url: what is between the semicolons after the first question mark. -/
def paramsOf (url : Bytes) : List Bytes := gStrsplit 59 0 (url.dropWhile (· ≠ 63)).tail

/-- `gebr_comm_uri_parse`; `none` is the end of the program. -/
def gebrCommUriParse (uri : GebrCommUri) (url : Bytes) : Option GebrCommUri :=
  match url.dropWhile (· ≠ 63) with
  | [] => some (gebrCommUriSetPrefix uri url)
  | _ :: _ =>
    (paramsOf url).foldlM parseParam (gebrCommUriSetPrefix uri (url.takeWhile (· ≠ 63)))

/-- A uri with a prefix and some parameters. -/
def uriOf (first : Bytes) (params : List (Bytes × Bytes)) : GebrCommUri :=
  params.foldl (fun uri param => gebrCommUriAddParam uri param.1 (some param.2))
    (gebrCommUriSetPrefix gebrCommUriNew first)

/-- The uri is read back from its text: the same prefix, and each key with the same value. -/
def RoundTrips (order : HeaderOrder) (first : Bytes) (params : List (Bytes × Bytes)) : Prop :=
  ∃ uri, gebrCommUriParse gebrCommUriNew (gebrCommUriToString order (uriOf first params)) = some uri ∧
    uri.uriPrefix = some first ∧ uri.params.Perm (params.map fun param => (param.1, some param.2))

/-- A prefix without a question mark, and distinct keys that are not empty and have no separator;
the values are any C strings. -/
structure WellFormed (first : Bytes) (params : List (Bytes × Bytes)) : Prop where
  noMark : 63 ∉ first
  distinct : (params.map Prod.fst).Nodup
  keys : ∀ param ∈ params, param.1 ≠ [] ∧ 61 ∉ param.1 ∧ 59 ∉ param.1
  values : ∀ param ∈ params, 0 ∉ param.2

end Model

section Reading

variable {uri : GebrCommUri}

theorem parseParam_isSome (uri : GebrCommUri) (param : Bytes) :
    (parseParam uri param).isSome = true ↔ 61 ∈ param := by
  unfold parseParam
  cases left : param.dropWhile (· ≠ 61) with
  | nil =>
    rw [List.dropWhile_eq_nil_iff] at left
    refine iff_of_false Bool.false_ne_true fun member => ?_
    exact absurd (left 61 member) (by decide)
  | cons b value =>
    refine iff_of_true rfl ?_
    by_contra missing
    have all : param.dropWhile (· ≠ 61) = [] := by
      rw [List.dropWhile_eq_nil_iff]
      exact fun c member => decide_eq_true fun same => missing (same ▸ member)
    exact nomatch left.symm.trans all

/-- The parameters are all read if each has an equals sign. -/
theorem foldlM_parseParam_isSome (params : List Bytes) (uri : GebrCommUri) :
    (params.foldlM parseParam uri).isSome = true ↔ ∀ param ∈ params, 61 ∈ param := by
  induction params generalizing uri with
  | nil => exact iff_of_true rfl fun param member => absurd member List.not_mem_nil
  | cons param params ih =>
    rw [List.foldlM_cons, List.forall_mem_cons, ← parseParam_isSome uri param]
    cases read : parseParam uri param with
    | none => exact iff_of_false Bool.false_ne_true fun both => Bool.false_ne_true both.1
    | some next => exact (ih next).trans (iff_and_self.2 fun _ => rfl)

/-- **The texts that are read**: every parameter has an equals sign. -/
theorem parse_isSome_iff (uri : GebrCommUri) (url : Bytes) :
    (gebrCommUriParse uri url).isSome = true ↔ ∀ param ∈ paramsOf url, 61 ∈ param := by
  unfold gebrCommUriParse
  split
  · rename_i none
    refine iff_of_true rfl fun param member => ?_
    rw [paramsOf, none] at member
    exact absurd member List.not_mem_nil
  · exact foldlM_parseParam_isSome _ _

end Reading

section RoundTrip

variable {order : HeaderOrder} {first : Bytes} {params : List (Bytes × Bytes)}

/-- The table of the parameters. -/
def tableOf (params : List (Bytes × Bytes)) : Headers :=
  params.map fun param => (param.1, some param.2)

/-- What is between two semicolons. -/
def paramText (entry : Bytes × Option Bytes) : Bytes :=
  entry.1 ++ 61 :: (entry.2.map gUriEscapeString).getD (ascii "(null)")

theorem concatenateUri_eq : concatenateUri = fun entry => paramText entry ++ [59] := by
  funext entry
  rw [concatenateUri, paramText]

theorem tableOf_distinct (distinct : (params.map Prod.fst).Nodup) :
    ((tableOf params).map Prod.fst).Nodup := by
  rw [tableOf, List.map_map]
  exact distinct

theorem uriOf_eq (distinct : (params.map Prod.fst).Nodup) (first : Bytes) :
    uriOf first params = ⟨some first, tableOf params⟩ := by
  have folded : ∀ (params : List (Bytes × Bytes)) (uri : GebrCommUri),
      params.foldl (fun uri param => gebrCommUriAddParam uri param.1 (some param.2)) uri =
        ⟨uri.uriPrefix, (tableOf params).foldl
          (fun filled entry => headersInsert entry.1 entry.2 filled) uri.params⟩ := by
    intro params
    induction params with
    | nil => exact fun _ => rfl
    | cons param params ih => exact fun uri => ih _
  rw [uriOf, folded, foldl_headersInsert (tableOf_distinct distinct)]
  rfl

theorem parseParam_paramText {key value : Bytes} (clean : 61 ∉ key) (text : 0 ∉ value)
    (uri : GebrCommUri) :
    parseParam uri (paramText (key, some value)) =
      some (gebrCommUriAddParam uri key (some value)) := by
  have nonzero : ∀ c ∈ value, c ≠ 0 := fun c member same => text (same ▸ member)
  rw [parseParam, paramText, dropWhile_ne clean, takeWhile_ne clean]
  simp only [Option.map_some, Option.getD_some, unescape_escape nonzero]

/-- An entry of a table that was made of well-formed parameters. -/
structure CleanEntry (entry : Bytes × Option Bytes) : Prop where
  key : entry.1 ≠ [] ∧ 61 ∉ entry.1 ∧ 59 ∉ entry.1
  value : ∃ value, entry.2 = some value ∧ 0 ∉ value

theorem WellFormed.entries (wellFormed : WellFormed first params) :
    ∀ entry ∈ order.entries (tableOf params), CleanEntry entry := by
  intro entry member
  obtain ⟨param, given, rfl⟩ := List.mem_map.1 ((order.perm _).mem_iff.1 member)
  exact ⟨wellFormed.keys param given, param.2, rfl, wellFormed.values param given⟩

theorem CleanEntry.noSemicolon {entry : Bytes × Option Bytes} (clean : CleanEntry entry) :
    59 ∉ paramText entry := by
  obtain ⟨value, same, -⟩ := clean.value
  rw [paramText, same, Option.map_some, Option.getD_some, List.mem_append, List.mem_cons,
    not_or, not_or]
  exact ⟨clean.key.2.2, by decide, not_mem_escape (by decide) (by decide) (by decide) value⟩

/-- The parameters of a text are read back, in the order they were written. -/
theorem foldlM_paramText {entries : Headers} (clean : ∀ entry ∈ entries, CleanEntry entry)
    (uri : GebrCommUri) :
    (entries.map paramText).foldlM parseParam uri =
      some { uri with
        params :=
  entries.foldl (fun filled entry => headersInsert entry.1 entry.2 filled) uri.params } := by
  induction entries generalizing uri with
  | nil => rfl
  | cons entry entries ih =>
    obtain ⟨key, value⟩ := entry
    obtain ⟨keyClean, value, rfl, text⟩ := clean _ List.mem_cons_self
    rw [List.map_cons, List.foldlM_cons, parseParam_paramText keyClean.2.1 text]
    exact ih (fun entry member => clean entry (List.mem_cons_of_mem _ member)) _

theorem toString_params (wellFormed : WellFormed first params) (some_param : params ≠ []) :
    gebrCommUriToString order (uriOf first params) =
      first ++ 63 :: ((order.entries (tableOf params)).flatMap fun entry => paramText entry ++
      [59]).dropLast := by
  have table : tableOf params ≠ [] := fun none => some_param (List.map_eq_nil_iff.1 none)
  have entries : order.entries (tableOf params) ≠ [] := by
    intro none
    have same := (order.perm (tableOf params)).length_eq
    rw [none] at same
    exact table (List.length_eq_zero_iff.1 same.symm)
  obtain ⟨front, entry, same⟩ := (List.eq_nil_or_concat _).resolve_left entries
  have ended : (order.entries (tableOf params)).flatMap (fun entry => paramText entry ++ [59]) =
      (front.flatMap (fun entry => paramText entry ++ [59]) ++ paramText entry) ++ [59] := by
    rw [same, List.concat_eq_append, List.flatMap_append, List.flatMap_singleton, List.append_assoc]
  rw [uriOf_eq wellFormed.distinct, gebrCommUriToString, concatenateUri_eq]
  simp only [if_neg table, Option.getD_some, ended]
  rw [← List.append_assoc, if_pos List.getLast?_concat, List.dropLast_concat, List.dropLast_concat,
    List.append_assoc, List.singleton_append]

/-- **A uri with parameters is read back.** -/
theorem roundTrips_params (wellFormed : WellFormed first params) (some_param : params ≠ []) :
    RoundTrips order first params := by
  have clean : ∀ entry ∈ order.entries (tableOf params), CleanEntry entry := wellFormed.entries
  have same := order.perm (tableOf params)
  have distinct : ((order.entries (tableOf params)).map Prod.fst).Nodup :=
    (same.map Prod.fst).nodup_iff.2 (tableOf_distinct wellFormed.distinct)
  have text : gebrCommUriToString order (uriOf first params) = _ :=
    toString_params wellFormed some_param
  have entries : order.entries (tableOf params) ≠ [] := by
    intro none
    rw [none] at same
    exact some_param (List.map_eq_nil_iff.1 same.nil_eq.symm)
  generalize order.entries (tableOf params) = table at clean same distinct text entries
  have items : gStrsplit 59 0 (table.flatMap fun entry => paramText entry ++ [59]).dropLast =
      table.map paramText := by
    rw [← List.flatMap_map paramText (· ++ [59])]
    refine gStrsplit_joined ?_ ?_
    · intro item member
      obtain ⟨entry, given, rfl⟩ := List.mem_map.1 member
      exact (clean entry given).noSemicolon
    · obtain ⟨entry, rest, rfl⟩ := List.exists_cons_of_ne_nil entries
      rw [← List.length_pos_iff]
      simp [paramText]
  refine ⟨⟨some first, table⟩, ?_, rfl, same⟩
  rw [text, gebrCommUriParse, dropWhile_ne wellFormed.noMark, takeWhile_ne wellFormed.noMark]
  simp only
  rw [paramsOf, dropWhile_ne wellFormed.noMark, List.tail_cons, items, foldlM_paramText clean]
  have inserted : table.foldl (fun filled entry => headersInsert entry.1 entry.2 filled) [] =
      [] ++ table := foldl_headersInsert (by rw [List.nil_append]; exact distinct)
  rw [List.nil_append] at inserted
  simp only [gebrCommUriSetPrefix, gebrCommUriNew, inserted]

/-- **The uris that are read back from their text**: without parameters, a prefix must not end with
a semicolon. -/
theorem roundTrips_iff (wellFormed : WellFormed first params) :
    RoundTrips order first params ↔ (params = [] → first.getLast? ≠ some 59) := by
  by_cases none : params = []
  · subst none
    have empty : order.entries [] = [] := (order.perm []).eq_nil
    have text : gebrCommUriToString order (uriOf first []) =
        if first.getLast? = some 59 then first.dropLast else first := by
      simp [uriOf, gebrCommUriToString, gebrCommUriSetPrefix, gebrCommUriNew, empty]
    have noMark : 63 ∉ (if first.getLast? = some 59 then first.dropLast else first) := by
      split
      · exact fun member => wellFormed.noMark (List.dropLast_subset _ member)
      · exact wellFormed.noMark
    have whole : (if first.getLast? = some 59 then first.dropLast else first).dropWhile (· ≠ 63) =
        [] := by
      rw [List.dropWhile_eq_nil_iff]
      exact fun c member => decide_eq_true fun same => noMark (same ▸ member)
    have read : gebrCommUriParse gebrCommUriNew (gebrCommUriToString order (uriOf first [])) =
        some ⟨some (if first.getLast? = some 59 then first.dropLast else first), []⟩ := by
      rw [text, gebrCommUriParse, whole]
      rfl
    rw [RoundTrips, read]
    refine ⟨?_, fun kept => ⟨_, rfl, ?_, List.Perm.refl _⟩⟩
    · rintro ⟨uri, same, sameFirst, -⟩ - semicolon
      obtain rfl := Option.some.inj same
      rw [if_pos semicolon] at sameFirst
      have shorter := congrArg List.length (Option.some.inj sameFirst)
      have some_byte : first ≠ [] := fun empty => by rw [empty] at semicolon; exact nomatch semicolon
      have positive := List.length_pos_iff.2 some_byte
      rw [List.length_dropLast] at shorter
      omega
    · rw [if_neg (kept rfl)]
  · exact iff_of_true (roundTrips_params wellFormed none) fun empty => absurd empty none

/-- **The codec of uris**: a well-formed uri is read back from its text, and a url is read, exactly
if a uri without parameters has a prefix that does not end with a semicolon, and every parameter of
the url has an equals sign. -/
theorem codec_iff (order : HeaderOrder) (wellFormed : WellFormed first params) (uri : GebrCommUri)
    (url : Bytes) :
    RoundTrips order first params ∧ (gebrCommUriParse uri url).isSome = true ↔
      (params = [] → first.getLast? ≠ some 59) ∧ ∀ param ∈ paramsOf url, 61 ∈ param :=
  and_congr (roundTrips_iff wellFormed) (parse_isSome_iff uri url)

/-- The order in which the entries were inserted. -/
def insertionOrder : HeaderOrder := ⟨fun table => table, fun table => List.Perm.refl table⟩

theorem codec_iff_foo :
    RoundTrips insertionOrder (ascii "/foo")
        [(ascii "boo", ascii "baz"), (ascii "too", ascii " =;?")] ∧
      (gebrCommUriParse gebrCommUriNew (ascii "/foo?bar=3;baz=boo")).isSome = true :=
  have wellFormed : WellFormed (ascii "/foo")
      [(ascii "boo", ascii "baz"), (ascii "too", ascii " =;?")] :=
    ⟨by decide, by decide, by decide, by decide⟩
  (codec_iff insertionOrder wellFormed gebrCommUriNew (ascii "/foo?bar=3;baz=boo")).2
    ⟨fun none => absurd none (List.cons_ne_nil _ _), by decide⟩

/-- **A parameter without an equals sign ends the program**, and a prefix loses the semicolon at its
end. -/
theorem parse_missing :
    gebrCommUriParse gebrCommUriNew (ascii "/foo?bar") = none ∧
      ¬ RoundTrips insertionOrder (ascii "/foo;") [] := by
  refine ⟨by decide, ?_⟩
  rintro ⟨uri, read, same, -⟩
  have found : gebrCommUriParse gebrCommUriNew
      (gebrCommUriToString insertionOrder (uriOf (ascii "/foo;") [])) =
          some ⟨some (ascii "/foo"), []⟩ := by
    decide
  obtain rfl := Option.some.inj (found.symm.trans read)
  exact absurd (Option.some.inj same) (by decide)

end RoundTrip

end Gebr.Comm
