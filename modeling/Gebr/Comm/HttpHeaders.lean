/-
**The header of an HTTP message, as it is written and as it is read.**

* `HttpMessage`: what a request or a response is made of; `built` is the message, `head` the bytes
  before its content.
* `CleanTable`: a table of headers that are lines each; `built_clean`.
* `strstr_head`, `strstr_short`: where the parser finds the end of a header, and where it does not.
* `fieldfy_head`: the fields that the parser reads from a header.
-/

import Gebr.Comm.HttpMsg
import Mathlib.Data.List.Nodup

namespace Gebr.Comm

open Gebr.Lib.CString

section Tables

/-- Keys that are not empty, differ, are in lower case and hold no separator; values of one line. -/
structure CleanTable (table : Headers) : Prop where
  distinct : (table.map Prod.fst).Nodup
  keys : ∀ entry ∈ table, entry.1 ≠ [] ∧ entry.1.map toLower = entry.1 ∧ 58 ∉ entry.1 ∧ 10 ∉ entry.1
  values : ∀ entry ∈ table, ∃ value, entry.2 = some value ∧ 10 ∉ value

variable {table other : Headers} {key : Bytes} {value : Option Bytes}

theorem CleanTable.perm (clean : CleanTable table) (same : other.Perm table) : CleanTable other where
  distinct := (same.map Prod.fst).nodup_iff.2 clean.distinct
  keys := fun entry member => clean.keys entry (same.mem_iff.1 member)
  values := fun entry member => clean.values entry (same.mem_iff.1 member)

/-- A key that is inserted into a table that has it not goes to the end. -/
theorem headersInsert_fresh (fresh : key ∉ table.map Prod.fst) (value : Option Bytes) :
    headersInsert key value table = table ++ [(key, value)] := by
  have none : (table.any fun entry => entry.1 = key) = false := by
    rw [List.any_eq_false]
    intro entry member same
    exact fresh (List.mem_map.2 ⟨entry, member, of_decide_eq_true same⟩)
  rw [headersInsert, none]
  rfl

theorem headersInsert_keys (key : Bytes) (value : Option Bytes) (table : Headers) :
    (headersInsert key value table).map Prod.fst =
      if key ∈ table.map Prod.fst then table.map Prod.fst else table.map Prod.fst ++ [key] := by
  by_cases present : key ∈ table.map Prod.fst
  · have some_entry : (table.any fun entry => entry.1 = key) = true := by
      obtain ⟨entry, member, same⟩ := List.mem_map.1 present
      exact List.any_eq_true.2 ⟨entry, member, decide_eq_true same⟩
    rw [headersInsert, if_pos some_entry, if_pos present, List.map_map]
    apply List.map_congr_left
    intro entry _
    show (if entry.1 = key then (key, value) else entry).1 = entry.1
    split
    · rename_i same
      exact same.symm
    · rfl
  · rw [headersInsert_fresh present, if_neg present, List.map_append]
    rfl

theorem mem_headersInsert {entry : Bytes × Option Bytes}
    (member : entry ∈ headersInsert key value table) : entry = (key, value) ∨ entry ∈ table := by
  unfold headersInsert at member
  split at member
  · obtain ⟨before, present, rfl⟩ := List.mem_map.1 member
    split
    · exact Or.inl rfl
    · exact Or.inr present
  · exact (List.mem_append.1 member).symm.imp List.mem_singleton.1 id

theorem self_mem_headersInsert (key : Bytes) (value : Option Bytes) (table : Headers) :
    (key, value) ∈ headersInsert key value table := by
  unfold headersInsert
  split
  · rename_i present
    obtain ⟨entry, member, same⟩ := List.any_eq_true.1 present
    exact List.mem_map.2 ⟨entry, member, if_pos (of_decide_eq_true same)⟩
  · exact List.mem_append_right _ List.mem_cons_self

theorem CleanTable.insert (clean : CleanTable table) {text : Bytes}
    (fine : key ≠ [] ∧ key.map toLower = key ∧ 58 ∉ key ∧ 10 ∉ key) (line : 10 ∉ text) :
    CleanTable (headersInsert key (some text) table) where
  distinct := by
    rw [headersInsert_keys]
    split
    · exact clean.distinct
    · rename_i fresh
      rw [List.nodup_append]
      exact ⟨clean.distinct, List.nodup_singleton key, fun first member second last same =>
        fresh (List.mem_singleton.1 last ▸ same ▸ member)⟩
  keys := fun entry member => by
    rcases mem_headersInsert member with rfl | member
    · exact fine
    · exact clean.keys entry member
  values := fun entry member => by
    rcases mem_headersInsert member with rfl | member
    · exact ⟨text, rfl, line⟩
    · exact clean.values entry member

theorem CleanTable.nil : CleanTable [] where
  distinct := List.nodup_nil
  keys := fun _ member => nomatch member
  values := fun _ member => nomatch member

theorem CleanTable.insertAll (clean : CleanTable table) (clean' : CleanTable other) :
    CleanTable (other.foldl (fun filled entry => headersInsert entry.1 entry.2 filled) table) := by
  induction other generalizing table with
  | nil => exact clean
  | cons entry other ih =>
    obtain ⟨text, same, line⟩ := clean'.values entry List.mem_cons_self
    rw [List.foldl_cons, same]
    apply ih (clean.insert (clean'.keys entry List.mem_cons_self) line)
    refine ⟨?_, fun next member => ?_, fun next member => ?_⟩
    · have distinct := clean'.distinct
      rw [List.map_cons, List.nodup_cons] at distinct
      exact distinct.2
    · exact clean'.keys next (List.mem_cons_of_mem entry member)
    · exact clean'.values next (List.mem_cons_of_mem entry member)

theorem not_mem_insertAll (fresh : key ∉ table.map Prod.fst) (fresh' : key ∉ other.map Prod.fst) :
    key ∉ (other.foldl (fun filled entry => headersInsert entry.1 entry.2 filled) table).map
    Prod.fst := by
  induction other generalizing table with
  | nil => exact fresh
  | cons entry other ih =>
    rw [List.map_cons, List.mem_cons, not_or] at fresh'
    rw [List.foldl_cons]
    refine ih ?_ fresh'.2
    rw [headersInsert_keys]
    split
    · exact fresh
    · rw [List.mem_append, List.mem_singleton, not_or]
      exact ⟨fresh, fresh'.1⟩

theorem headersLookup_none (fresh : key ∉ table.map Prod.fst) : headersLookup key table = none := by
  have none : table.find? (fun entry => entry.1 = key) = none := by
    rw [List.find?_eq_none]
    intro entry member same
    exact fresh (List.mem_map.2 ⟨entry, member, of_decide_eq_true same⟩)
  rw [headersLookup, none]
  rfl

/-- In a table without repeated keys an entry is what its key looks up. -/
theorem headersLookup_mem (distinct : (table.map Prod.fst).Nodup) (member : (key, value) ∈ table) :
    headersLookup key table = value := by
  unfold headersLookup
  cases found : table.find? fun entry => entry.1 = key with
  | none => exact absurd (decide_eq_true rfl) (List.find?_eq_none.1 found (key, value) member)
  | some entry =>
    have same : entry.1 = key := by simpa using List.find?_some found
    have equal : entry = (key, value) :=
      List.inj_on_of_nodup_map distinct (List.mem_of_find?_eq_some found) member same
    rw [equal]
    rfl

/-- **The parser's table of some header lines** has their entries, in their order. -/
theorem fillWithHeaders_entries (clean : CleanTable table) :
    (table.map fun entry => entry.1 ++ 58 :: entry.2.getD (ascii "(null)")).foldl
      fillWithHeader other = table.foldl (fun filled entry => headersInsert entry.1 entry.2 filled)
      other := by
  rw [List.foldl_map]
  refine List.foldl_ext _ _ _ ?_
  intro filled entry member
  obtain ⟨named, lower, noColon, -⟩ := clean.keys entry member
  obtain ⟨text, same, -⟩ := clean.values entry member
  have tokens : gStrsplit 58 2 (entry.1 ++ 58 :: text) = [entry.1, text] := by
    rw [gStrsplit, if_neg (List.append_ne_nil_of_right_ne_nil _ (List.cons_ne_nil _ _))]
    show splitTokens 58 1 _ = _
    rw [splitTokens_cons noColon, splitTokens]
  rw [same, Option.getD_some, fillWithHeader, tokens]
  simp only [if_neg named, lower, List.head?_cons]

/-- Distinct keys go into a table one after another. -/
theorem foldl_headersInsert (distinct : ((other ++ table).map Prod.fst).Nodup) :
    table.foldl (fun filled entry => headersInsert entry.1 entry.2 filled) other = other ++ table := by
  induction table generalizing other with
  | nil => rw [List.foldl_nil, List.append_nil]
  | cons entry table ih =>
    have fresh : entry.1 ∉ other.map Prod.fst := by
      rw [List.map_append, List.map_cons, List.nodup_append] at distinct
      exact fun member => distinct.2.2 entry.1 member entry.1 List.mem_cons_self rfl
    rw [List.foldl_cons, headersInsert_fresh fresh, ih, List.append_assoc, List.singleton_append]
    rw [List.append_assoc, List.singleton_append]
    exact distinct

end Tables

section Messages

/-- What the first line of a message says. -/
inductive HttpStart where
  | request (method : GebrCommHttpRequestMethod) (url : Bytes)
  | response (statusCode : ℕ)
  deriving DecidableEq, Repr

/-- The first line, without its end. -/
def HttpStart.line : HttpStart → Bytes
  | .request method url => method.toBytes ++ 32 :: url
  | .response statusCode => ascii "HTTP/1.1 " ++ decimal statusCode ++ ascii " OK"

/-- **What a message is made of**: a url without a space or a line feed, headers with distinct keys
in lower case, and any content. Codes and lengths fit their types. -/
structure HttpMessage where
  order : HeaderOrder
  start : HttpStart
  headers : List (Bytes × Bytes)
  content : Bytes
  url : ∀ method url, start = .request method url → 32 ∉ url ∧ 10 ∉ url
  status : ∀ code, start = .response code → code < 2 ^ 32
  distinct : (headers.map Prod.fst).Nodup
  keys : ∀ entry ∈ headers, entry.1.map toLower = entry.1 ∧ 58 ∉ entry.1 ∧ 10 ∉ entry.1
  values : ∀ entry ∈ headers, 10 ∉ entry.2
  fits : content.length < 2 ^ 63

namespace HttpMessage

variable (m : HttpMessage)

/-- The caller's headers, as a table. -/
def given : Headers := m.headers.map fun entry => (entry.1, some entry.2)

/-- The message that is built. -/
def built : GebrCommHttpMsg :=
  match m.start with
  | .request method url => gebrCommHttpMsgNewRequest m.order method url m.given m.content
  | .response statusCode => gebrCommHttpMsgNewResponse m.order statusCode m.given m.content

/-- Its headers, in the order in which they are written. -/
def entries : Headers := m.order.entries m.built.headers

/-- The lines of its header. -/
def lines : List Bytes :=
  m.start.line :: m.entries.map fun entry => entry.1 ++ 58 :: entry.2.getD (ascii "(null)")

/-- The bytes before its content. -/
def head : Bytes := m.lines.flatMap (· ++ [10]) ++ [10]

/-- What the parser can carry: the methods it makes a message for, no empty key, and no length for a
content that is empty. -/
structure Carried : Prop where
  method : ∀ method url, m.start = .request method url → method = .get ∨ method = .put
  named : ∀ entry ∈ m.headers, entry.1 ≠ []
  counted : m.content = [] → contentLength ∉ m.headers.map Prod.fst

/-- **What is written**: the header, and then the content. -/
theorem raw_built : m.built.raw = m.head ++ m.content := by
  have line : ∀ start : HttpStart, ∀ entries : Headers,
      (start.line ++ [10]) ++ entries.flatMap headerLine ++ [10] =
        (start.line :: entries.map fun entry => entry.1 ++ 58 :: entry.2.getD (ascii "(null)")).flatMap
          (· ++ [10]) ++ [10] := by
    intro start entries
    rw [List.flatMap_cons, List.flatMap_map]
    rfl
  unfold head lines entries built
  cases m.start with
  | request method url =>
    rw [← line]
    unfold gebrCommHttpMsgNewRequest gebrCommHttpMsgSerialize firstLine HttpStart.line
    rfl
  | response statusCode =>
    rw [← line]
    unfold gebrCommHttpMsgNewResponse gebrCommHttpMsgSerialize firstLine HttpStart.line
    rfl

/-- The headers that are written: the caller's, and the length of the content if there is one. -/
theorem headers_built :
    m.built.headers =
      if m.content ≠ [] then
        headersInsert contentLength (some (decimal m.content.length))
          (givenHeaders m.order m.given m.content)
      else givenHeaders m.order m.given m.content := by
  unfold built
  cases m.start with
  | request method url => rfl
  | response statusCode => rfl

theorem contentLength_fine :
    contentLength ≠ [] ∧ contentLength.map toLower = contentLength ∧ 58 ∉ contentLength ∧
      10 ∉ contentLength := by
  decide

theorem not_mem_decimal_feed (n : ℕ) : 10 ∉ decimal n :=
  fun member => absurd (isDigit_of_mem_decimal member) (by decide)

variable {m} (carried : m.Carried)

include carried

theorem Carried.given_clean : CleanTable m.given where
  distinct := by
    unfold given
    rw [List.map_map]
    exact m.distinct
  keys := fun entry member => by
    obtain ⟨header, present, rfl⟩ := List.mem_map.1 member
    exact ⟨carried.named header present, m.keys header present⟩
  values := fun entry member => by
    obtain ⟨header, present, rfl⟩ := List.mem_map.1 member
    exact ⟨header.2, rfl, m.values header present⟩

/-- **The headers that are written are lines.** -/
theorem Carried.headers_clean : CleanTable m.built.headers := by
  have given := carried.given_clean.perm (m.order.perm m.given)
  have table : CleanTable (givenHeaders m.order m.given m.content) := by
    unfold givenHeaders
    simp only
    refine CleanTable.insertAll ?_ given
    split
    · exact CleanTable.nil.insert contentLength_fine (not_mem_decimal_feed _)
    · exact CleanTable.nil
  rw [m.headers_built]
  split
  · exact table.insert contentLength_fine (not_mem_decimal_feed _)
  · exact table

theorem Carried.entries_clean : CleanTable m.entries := carried.headers_clean.perm (m.order.perm _)

/-- The length of the content is among the headers, if there is a content. -/
theorem Carried.lookup_entries :
    headersLookup contentLength m.entries =
      if m.content = [] then none else some (decimal m.content.length) := by
  have keys := ((m.order.perm m.built.headers).map Prod.fst).mem_iff (a := contentLength)
  split
  · rename_i empty
    apply headersLookup_none
    rw [show m.entries.map Prod.fst = (m.order.entries m.built.headers).map Prod.fst from rfl, keys,
      m.headers_built, if_neg (not_not.2 empty)]
    unfold givenHeaders
    simp only [empty, ne_eq, not_true_eq_false, if_false]
    refine not_mem_insertAll (fun member => nomatch member) ?_
    rw [((m.order.perm m.given).map Prod.fst).mem_iff]
    unfold given
    rw [List.map_map]
    exact carried.counted empty
  · rename_i some_byte
    apply headersLookup_mem carried.entries_clean.distinct
    refine ((m.order.perm m.built.headers).mem_iff).2 ?_
    rw [m.headers_built, if_pos some_byte]
    exact self_mem_headersInsert _ _ _

omit carried

theorem line_clean : 10 ∉ m.start.line ∧ m.start.line ≠ [] ∧ m.start.line ≠ [13] := by
  have all : ∀ method : GebrCommHttpRequestMethod, 10 ∉ method.toBytes ∧ 2 ≤
      method.toBytes.length := by
    intro method
    cases method <;> decide
  unfold HttpStart.line
  cases first : m.start with
  | request method url =>
    obtain ⟨noFeed, long⟩ := all method
    refine ⟨fun member => ?_, fun same => ?_, fun same => ?_⟩
    · rcases List.mem_append.1 member with front | back
      · exact noFeed front
      · exact (m.url method url first).2 ((List.mem_cons.1 back).resolve_left (by decide))
    · exact absurd (congrArg List.length same) (by simp)
    · have length := congrArg List.length same
      simp only [List.length_append, List.length_cons, List.length_nil] at length
      omega
  | response statusCode =>
    refine ⟨fun member => ?_, fun same => ?_, fun same => ?_⟩
    · rcases List.mem_append.1 member with front | back
      · rcases List.mem_append.1 front with front | middle
        · exact absurd front (by decide)
        · exact not_mem_decimal_feed statusCode middle
      · exact absurd back (by decide)
    · exact absurd (congrArg List.length same) (by simp [ascii])
    · exact absurd (congrArg List.length same) (by simp [ascii])

include carried

/-- The lines of a header: none is empty, and none is a carriage return. -/
theorem Carried.lines_clean : ∀ line ∈ m.lines, 10 ∉ line ∧ line ≠ [] ∧ line ≠ [13] := by
  intro line member
  rcases List.mem_cons.1 member with rfl | member
  · exact line_clean
  · obtain ⟨entry, present, rfl⟩ := List.mem_map.1 member
    obtain ⟨named, -, -, noFeed⟩ := carried.entries_clean.keys entry present
    obtain ⟨text, same, noFeed'⟩ := carried.entries_clean.values entry present
    have positive := List.length_pos_iff.2 named
    refine ⟨fun inside => ?_, fun empty => ?_, fun one => ?_⟩
    · rw [same, Option.getD_some] at inside
      rcases List.mem_append.1 inside with front | back
      · exact noFeed front
      · exact noFeed' ((List.mem_cons.1 back).resolve_left (by decide))
    · exact absurd (congrArg List.length empty) (by simp)
    · have length := congrArg List.length one
      simp only [List.length_append, List.length_cons, List.length_nil] at length
      omega

/-- **The parser finds the end of a header.** -/
theorem Carried.strstr_head (rest : Bytes) :
    strstr [10, 10] (m.head ++ rest) = some (m.head.length - 2) := by
  have clean : ∀ line ∈ m.lines, 10 ∉ line ∧ line ≠ [] :=
    fun line member => ⟨(carried.lines_clean line member).1, (carried.lines_clean line member).2.1⟩
  have none := not_infix_lines clean
  obtain ⟨front, shape⟩ : ∃ front, m.lines.flatMap (· ++ [10]) = front ++ [10] := by
    unfold lines
    rcases List.eq_nil_or_concat (m.entries.map fun entry =>
        entry.1 ++ 58 :: entry.2.getD (ascii "(null)")) with nil | ⟨before, last, same⟩
    · rw [nil]
      exact ⟨m.start.line, by rw [List.flatMap_cons, List.flatMap_nil, List.append_nil]⟩
    · rw [same, List.concat_eq_append, List.flatMap_cons, List.flatMap_append]
      exact ⟨_, by rw [List.flatMap_cons, List.flatMap_nil, List.append_nil, ← List.append_assoc,
        ← List.append_assoc]⟩
  rw [shape] at none
  have found : strstr [10, 10] (front ++ [10, 10] ++ rest) = some front.length :=
    strstr_first none (List.cons_ne_nil _ _) rest
  have whole : m.head = front ++ [10, 10] := by
    unfold head
    rw [shape, List.append_assoc]
    rfl
  rw [whole, found, List.length_append]
  rfl

/-- **The parser finds nothing in a part of a header.** -/
theorem Carried.strstr_short {part : Bytes} (begins : part <+: m.head)
    (proper : part.length < m.head.length) :
    strstr [10, 10] part = none ∧ strstr [13, 10, 13, 10] part = none := by
  have within : part <+: m.lines.flatMap (· ++ [10]) := by
    refine List.prefix_of_prefix_length_le begins (List.prefix_append _ _) ?_
    unfold head at proper
    rw [List.length_append, List.length_singleton] at proper
    omega
  constructor
  · rw [strstr_eq_none (List.cons_ne_nil _ _)]
    refine fun inside => not_infix_lines ?_ (inside.trans within.isInfix)
    exact fun line member =>
      ⟨(carried.lines_clean line member).1, (carried.lines_clean line member).2.1⟩
  · rw [strstr_eq_none (List.cons_ne_nil _ _)]
    refine fun inside => not_infix_returns (by decide) ?_ (inside.trans within.isInfix)
    exact fun line member =>
      ⟨(carried.lines_clean line member).1, (carried.lines_clean line member).2.2⟩

omit carried

variable (m)

/-- The parser's message before it has read a header. -/
def fresh : GebrCommHttpMsg := gebrCommHttpMsgNew m.built.type m.built.method

/-- The parser's message once it has read a header. -/
def headed : GebrCommHttpMsg :=
  { m.built with headers := m.entries, content := [], raw := m.head, parsed := false }

variable {m}

/-- The url or the code is the second word of the first line. -/
theorem second_word :
    (gStrsplit 32 0 m.start.line)[1]?.getD [] =
      match m.start with
      | .request _ url => url
      | .response statusCode => decimal statusCode := by
  have noSpace : ∀ method : GebrCommHttpRequestMethod, 32 ∉ method.toBytes := by
    intro method
    cases method <;> decide
  have digits : ∀ n, 32 ∉ decimal n := fun n member => absurd (isDigit_of_mem_decimal member)
    (by decide)
  rw [gStrsplit, if_neg line_clean.2.1]
  cases first : m.start with
  | request method url =>
    have length : (method.toBytes ++ 32 :: url).length = method.toBytes.length + url.length + 1 := by
      rw [List.length_append, List.length_cons]
      rfl
    show (splitTokens 32 (method.toBytes ++ 32 :: url).length
      (method.toBytes ++ 32 :: url))[1]?.getD [] = url
    rw [length, splitTokens_cons (noSpace method), splitTokens_clean (m.url method url first).1]
    rfl
  | response statusCode =>
    have words : HttpStart.line (.response statusCode) =
        ascii "HTTP/1.1" ++ 32 :: (decimal statusCode ++ 32 :: ascii "OK") := by
      show ascii "HTTP/1.1 " ++ decimal statusCode ++ ascii " OK" = _
      rw [List.append_assoc]
      rfl
    obtain ⟨n, length⟩ : ∃ n, (HttpStart.line (.response statusCode)).length = n + 2 := by
      refine ⟨(HttpStart.line (.response statusCode)).length - 2, ?_⟩
      rw [words, List.length_append, List.length_cons, List.length_append, List.length_cons]
      omega
    show (splitTokens 32 (HttpStart.line (.response statusCode)).length _)[1]?.getD [] = _
    rw [length, words, splitTokens_cons (by decide), splitTokens_cons (digits statusCode)]
    rfl

include carried

/-- The lines after the first one give the entries. -/
theorem Carried.fill_entries :
    fillWithHeaders ((m.entries.map fun entry =>
      entry.1 ++ 58 :: entry.2.getD (ascii "(null)")).flatMap (· ++ [10]) ++ [10]) [] = m.entries := by
  have clean : ∀ line ∈ (m.entries.map fun entry =>
      entry.1 ++ 58 :: entry.2.getD (ascii "(null)")) ++ [[]], 10 ∉ line := by
    intro line member
    rcases List.mem_append.1 member with inside | last
    · exact (carried.lines_clean line (List.mem_cons_of_mem _ inside)).1
    · rw [List.mem_singleton.1 last]
      exact List.not_mem_nil
  have distinct := carried.entries_clean.distinct
  unfold fillWithHeaders
  generalize shape : (m.entries.map fun entry =>
    entry.1 ++ 58 :: entry.2.getD (ascii "(null)")) = lines at clean ⊢
  have text : lines.flatMap (· ++ [10]) ++ [10] = (lines ++ [[]]).flatMap (· ++ [10]) := by
    rw [List.flatMap_append]
    rfl
  rw [text, gStrsplit_lines clean (List.append_ne_nil_of_right_ne_nil _ (List.cons_ne_nil _ _)),
    List.append_assoc, List.foldl_append, ← shape, fillWithHeaders_entries carried.entries_clean,
    foldl_headersInsert (by simpa using distinct)]
  rfl

omit carried

theorem fieldfy_request (msg : GebrCommHttpMsg) {line text : Bytes}
    (raw : msg.raw = line ++ 10 :: text) (clean : 10 ∉ line) (type : msg.type = .request) :
    gebrCommHttpFieldfy msg =
      { msg with
        url := (gStrsplit 32 0 line)[1]?.getD []
        headers := fillWithHeaders text msg.headers } := by
  unfold gebrCommHttpFieldfy
  simp only [type, raw, takeWhile_ne clean, dropWhile_ne clean]

theorem fieldfy_response (msg : GebrCommHttpMsg) {line text : Bytes}
    (raw : msg.raw = line ++ 10 :: text) (clean : 10 ∉ line) (type : msg.type = .response) :
    gebrCommHttpFieldfy msg =
      { msg with
        statusCode := atoi ((gStrsplit 32 0 line)[1]?.getD [])
        headers := fillWithHeaders text msg.headers } := by
  unfold gebrCommHttpFieldfy
  simp only [type, raw, takeWhile_ne clean, dropWhile_ne clean]

include carried

/-- **The parser reads from a header what was written into it.** -/
theorem Carried.fieldfy_head :
    gebrCommHttpFieldfy { m.fresh with parsedHeaders := true, raw := m.head } = m.headed := by
  have shape : m.head = m.start.line ++ 10 :: ((m.entries.map fun entry =>
      entry.1 ++ 58 :: entry.2.getD (ascii "(null)")).flatMap (· ++ [10]) ++ [10]) := by
    unfold head lines
    rw [List.flatMap_cons, List.append_assoc, List.append_assoc]
    rfl
  have word := @second_word m
  have filled := carried.fill_entries
  cases start : m.start with
  | request method url =>
    rw [start] at word
    have built : m.built = gebrCommHttpMsgNewRequest m.order method url m.given m.content := by
      unfold HttpMessage.built
      rw [start]
    have type : m.fresh.type = .request := congrArg GebrCommHttpMsg.type built
    rw [fieldfy_request { m.fresh with parsedHeaders := true, raw := m.head } shape line_clean.1 type]
    unfold headed
    rw [start, word]
    simp only [show m.fresh.headers = [] from rfl, filled]
    rw [built]
    unfold fresh
    rw [built]
    rfl
  | response statusCode =>
    rw [start] at word
    have built : m.built = gebrCommHttpMsgNewResponse m.order statusCode m.given m.content := by
      unfold HttpMessage.built
      rw [start]
    have type : m.fresh.type = .response := congrArg GebrCommHttpMsg.type built
    have code : atoi (decimal statusCode) = statusCode := by
      have small := m.status statusCode start
      rw [atoi, strtol_digits (fun _ => isDigit_of_mem_decimal) (by rw [value_decimal]; omega),
        value_decimal]
      omega
    rw [fieldfy_response { m.fresh with parsedHeaders := true, raw := m.head } shape line_clean.1 type]
    unfold headed
    rw [start, word]
    simp only [show m.fresh.headers = [] from rfl, filled, code]
    rw [built]
    unfold fresh
    rw [built]
    rfl

end HttpMessage

end Messages

end Gebr.Comm
