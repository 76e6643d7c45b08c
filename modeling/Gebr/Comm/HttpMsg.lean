/-
**The HTTP messages of a protocol socket.**

A message is a first line, header lines, an empty line and a content. It is parsed piece by piece:
the pieces go to `raw` until the header is complete, and what follows is counted by
`content-length`.

* `gebrCommHttpMsgNewRequest`, `gebrCommHttpMsgNewResponse`: a message and its serialization.
* `gebrCommHttpMsgNewParsing`: one call of the parser; it gives the message and the bytes it left.

Bytes are never zero. `GHashTable` gives its headers in an order of its own: `HeaderOrder`.
-/

import Gebr.Lib.CString

namespace Gebr.Comm

open Gebr.Lib.CString

section Model

abbrev Bytes := List UInt8

inductive GebrCommHttpRequestType where
  | unknown | request | response
  deriving DecidableEq, Repr

inductive GebrCommHttpRequestMethod where
  | unknown | get | put | post | delete
  deriving DecidableEq, Repr

/-- `method_enum_to_string`, and what `%s` prints for its `NULL`. -/
def GebrCommHttpRequestMethod.toBytes : GebrCommHttpRequestMethod → Bytes
  | .unknown => ascii "(null)"
  | .get => ascii "GET"
  | .put => ascii "PUT"
  | .post => ascii "POST"
  | .delete => ascii "DELETE"

/-- A header table. A line without a colon gives a key without a value. -/
abbrev Headers := List (Bytes × Option Bytes)

/-- `GebrCommHttpMsg`; its `params` are never filled. -/
structure GebrCommHttpMsg where
  type : GebrCommHttpRequestType
  method : GebrCommHttpRequestMethod
  statusCode : ℕ
  url : Bytes
  headers : Headers
  content : Bytes
  raw : Bytes
  parsed : Bool
  parsedHeaders : Bool
  deriving DecidableEq, Repr

/-- The order in which a hash table gives back its entries. -/
structure HeaderOrder where
  entries : Headers → Headers
  perm : ∀ table, (entries table).Perm table

/-- `g_hash_table_insert`. -/
def headersInsert (key : Bytes) (value : Option Bytes) (table : Headers) : Headers :=
  if table.any fun entry => entry.1 = key then
    table.map fun entry => if entry.1 = key then (key, value) else entry
  else table ++ [(key, value)]

/-- `g_hash_table_lookup`: a missing key and one without a value both give `NULL`. -/
def headersLookup (key : Bytes) (table : Headers) : Option Bytes :=
  (table.find? fun entry => entry.1 = key).bind Prod.snd

def contentLength : Bytes := ascii "content-length"

/-- `gebr_comm_http_msg_new`. -/
def gebrCommHttpMsgNew (type : GebrCommHttpRequestType) (method : GebrCommHttpRequestMethod) :
    GebrCommHttpMsg :=
  ⟨type, method, 0, [], [], [], [], false, false⟩

/-- `g_ascii_tolower`. -/
def toLower (b : UInt8) : UInt8 := if 65 ≤ b && b ≤ 90 then b + 32 else b

/-- One line of `gebr_g_hash_table_fill_with_headers`. -/
def fillWithHeader (table : Headers) (line : Bytes) : Headers :=
  match gStrsplit 58 2 line with
  | [] => table
  | key :: rest => if key = [] then table else headersInsert (key.map toLower) rest.head? table

/-- `gebr_g_hash_table_fill_with_headers`. -/
def fillWithHeaders (headers : Bytes) (table : Headers) : Headers :=
  (gStrsplit 10 0 headers).foldl fillWithHeader table

/-- `atoi`, as the `guint` it is stored in. -/
def atoi (s : Bytes) : ℕ := ((strtol s).1 % 2 ^ 32).toNat

/-- `gebr_comm_http_fieldfy`. -/
def gebrCommHttpFieldfy (msg : GebrCommHttpMsg) : GebrCommHttpMsg :=
  let firstLine := msg.raw.takeWhile (· ≠ 10)
  let second := (gStrsplit 32 0 firstLine)[1]?.getD []
  let msg :=
    match msg.type with
    | .response => { msg with statusCode := atoi second }
    | .request => { msg with url := second }
    | .unknown => msg
  match msg.raw.dropWhile (· ≠ 10) with
  | [] => msg
  | _ :: headers => { msg with headers := fillWithHeaders headers msg.headers }

/-- The turn of the parser's loop on the headers. -/
def parseHeaders (msg : GebrCommHttpMsg) (data : Bytes) : GebrCommHttpMsg × Bytes :=
  let fullData := msg.raw ++ data
  match (strstr [10, 10] fullData).or (strstr [13, 10, 13, 10] fullData) with
  | none => ({ msg with raw := msg.raw ++ data }, [])
  | some headerEnd =>
    let bytes := headerEnd + 2 - msg.raw.length
    let msg := gebrCommHttpFieldfy { msg with parsedHeaders := true, raw := msg.raw ++ data.take bytes }
    let parsed := if headersLookup contentLength msg.headers = none then true else msg.parsed
    ({ msg with parsed }, data.drop bytes)

/-- The turn of the parser's loop on the content. Without a length the loop would turn for ever; but
`parsed` is set then. -/
def parseContent (msg : GebrCommHttpMsg) (data : Bytes) : GebrCommHttpMsg × Bytes :=
  match headersLookup contentLength msg.headers with
  | none => (msg, [])
  | some tmp =>
    let remaining := toSize (strtol tmp).1 - msg.content.length
    if remaining ≤ data.length then
      ({ msg with
          content := msg.content ++ data.take remaining
          raw := msg.raw ++ data.take remaining
          parsed := true }, data.drop remaining)
    else ({ msg with content := msg.content ++ data, raw := msg.raw ++ data }, [])

/-- The loop of the parser: it turns at most once on the headers, and then once on the content. -/
def parseLoop (msg : GebrCommHttpMsg) (data : Bytes) : GebrCommHttpMsg × Bytes :=
  let (msg, data) := if msg.parsedHeaders then (msg, data) else parseHeaders msg data
  if msg.parsed = false ∧ data ≠ [] then parseContent msg data else (msg, data)

/-- What one call of the parser comes to. -/
inductive Parsing where
  | crash
  | null
  | msg (msg : GebrCommHttpMsg) (data : Bytes)
  deriving DecidableEq, Repr

/-- `gebr_comm_http_msg_new_parsing`, by what its loop does with a message. A `POST` or a `DELETE`
makes no message, and the loop reads through `NULL`. -/
def parsingBy (loop : GebrCommHttpMsg → Parsing) (partialMsg : Option GebrCommHttpMsg) (data : Bytes) :
    Parsing :=
  match partialMsg with
  | some msg => if msg.parsed = false ∧ data ≠ [] then loop msg else .msg msg data
  | none =>
    if (ascii "HTTP/1.1 ").isPrefixOf data then loop (gebrCommHttpMsgNew .response .unknown)
    else if (ascii "GET ").isPrefixOf data then loop (gebrCommHttpMsgNew .request .get)
    else if (ascii "PUT ").isPrefixOf data then loop (gebrCommHttpMsgNew .request .put)
    else if (ascii "POST ").isPrefixOf data then .crash
    else if (ascii "DELETE ").isPrefixOf data then .crash
    else .null

/-- `gebr_comm_http_msg_new_parsing`. -/
def gebrCommHttpMsgNewParsing (partialMsg : Option GebrCommHttpMsg) (data : Bytes) : Parsing :=
  parsingBy (fun msg => .msg (parseLoop msg data).1 (parseLoop msg data).2) partialMsg data

/-- The first line of a message. -/
def firstLine (msg : GebrCommHttpMsg) : Bytes :=
  match msg.type with
  | .request => msg.method.toBytes ++ 32 :: msg.url ++ [10]
  | .response => ascii "HTTP/1.1 " ++ decimal msg.statusCode ++ ascii " OK" ++ [10]
  | .unknown => msg.raw

/-- A header line. -/
def headerLine (entry : Bytes × Option Bytes) : Bytes :=
  entry.1 ++ 58 :: entry.2.getD (ascii "(null)") ++ [10]

/-- `gebr_comm_http_msg_serialize`. -/
def gebrCommHttpMsgSerialize (order : HeaderOrder) (msg : GebrCommHttpMsg) : GebrCommHttpMsg :=
  let raw := firstLine msg
  let headers :=
    if msg.content ≠ [] then
      headersInsert contentLength (some (decimal msg.content.length)) msg.headers
    else msg.headers
  let raw := raw ++ (order.entries headers).flatMap headerLine ++ [10] ++ msg.content
  { msg with headers, raw, parsed := true, parsedHeaders := true }

/-- The headers of a new message: the length of the content, and then the caller's. -/
def givenHeaders (order : HeaderOrder) (headers : Headers) (content : Bytes) : Headers :=
  let table := if content ≠ [] then [(contentLength, some (decimal content.length))] else []
  (order.entries headers).foldl (fun table entry => headersInsert entry.1 entry.2 table) table

/-- `gebr_comm_http_msg_new_request`. -/
def gebrCommHttpMsgNewRequest (order : HeaderOrder) (method : GebrCommHttpRequestMethod) (url : Bytes)
    (headers : Headers) (content : Bytes) : GebrCommHttpMsg :=
  gebrCommHttpMsgSerialize order
    { gebrCommHttpMsgNew .request method with
      url, content, headers := givenHeaders order headers content }

/-- `gebr_comm_http_msg_new_response`. -/
def gebrCommHttpMsgNewResponse (order : HeaderOrder) (statusCode : ℕ) (headers : Headers)
    (content : Bytes) : GebrCommHttpMsg :=
  gebrCommHttpMsgSerialize order
    { gebrCommHttpMsgNew .response .unknown with
      statusCode, content, headers := givenHeaders order headers content }

end Model

section Progress

variable {msg next : GebrCommHttpMsg} {data rest : Bytes}

theorem parseHeaders_length_le (msg : GebrCommHttpMsg) (data : Bytes) :
    (parseHeaders msg data).2.length ≤ data.length := by
  unfold parseHeaders
  simp only
  split
  · exact Nat.zero_le _
  · rw [List.length_drop]
    exact Nat.sub_le _ _

theorem parseHeaders_length_lt (fresh : msg.raw = []) (some_byte : data ≠ []) :
    (parseHeaders msg data).2.length < data.length := by
  have positive := List.length_pos_iff.2 some_byte
  unfold parseHeaders
  simp only [fresh, List.length_nil]
  split
  · exact positive
  · rw [List.length_drop]
    omega

theorem parseContent_spec (msg : GebrCommHttpMsg) (data : Bytes) :
    ((parseContent msg data).1.parsed = true ∨ (parseContent msg data).2 = []) ∧
      (parseContent msg data).2.length ≤ data.length := by
  unfold parseContent
  split
  · exact ⟨Or.inr rfl, Nat.zero_le _⟩
  · simp only
    split
    · refine ⟨Or.inl rfl, ?_⟩
      rw [List.length_drop]
      exact Nat.sub_le _ _
    · exact ⟨Or.inr rfl, Nat.zero_le _⟩

/-- **A call of the parser ends the message or uses up the data.** -/
theorem parseLoop_spec (msg : GebrCommHttpMsg) (data : Bytes) :
    ((parseLoop msg data).1.parsed = true ∨ (parseLoop msg data).2 = []) ∧
      (parseLoop msg data).2.length ≤ data.length := by
  unfold parseLoop
  have header : (if msg.parsedHeaders then (msg, data) else parseHeaders msg data).2.length ≤
      data.length := by
    split
    · exact le_rfl
    · exact parseHeaders_length_le msg data
  generalize (if msg.parsedHeaders then (msg, data) else parseHeaders msg data) = left at header
  obtain ⟨next, rest⟩ := left
  simp only at header ⊢
  split
  · have content := parseContent_spec next rest
    exact ⟨content.1, content.2.trans header⟩
  · rename_i ended
    refine ⟨?_, header⟩
    rw [not_and_or, not_not, Bool.not_eq_false] at ended
    exact ended

theorem parseLoop_length_lt (fresh : msg.raw = []) (unread : msg.parsedHeaders = false)
    (some_byte : data ≠ []) : (parseLoop msg data).2.length < data.length := by
  have header := parseHeaders_length_lt fresh some_byte
  unfold parseLoop
  simp only [unread, Bool.false_eq_true, if_false]
  split
  · exact lt_of_le_of_lt (parseContent_spec _ _).2 header
  · exact header

/-- **What a call of the parser leaves**, on data: a message that is parsed, or nothing. -/
theorem newParsing_spec {partialMsg : Option GebrCommHttpMsg} (some_byte : data ≠ [])
    (called : gebrCommHttpMsgNewParsing partialMsg data = .msg next rest) :
    (next.parsed = true ∨ rest = []) ∧ rest.length ≤ data.length ∧
      (partialMsg = none → rest.length < data.length) := by
  cases partialMsg with
  | some msg =>
    rw [gebrCommHttpMsgNewParsing, parsingBy] at called
    split at called
    · obtain ⟨rfl, rfl⟩ := Parsing.msg.inj called
      exact ⟨(parseLoop_spec msg data).1, (parseLoop_spec msg data).2, fun none => nomatch none⟩
    · rename_i done
      obtain ⟨rfl, rfl⟩ := Parsing.msg.inj called
      rw [not_and_or, not_not, Bool.not_eq_false] at done
      exact ⟨done, le_rfl, fun none => nomatch none⟩
  | none =>
    have started : ∀ type method, Parsing.msg (parseLoop (gebrCommHttpMsgNew type method) data).1
        (parseLoop (gebrCommHttpMsgNew type method) data).2 = .msg next rest →
        (next.parsed = true ∨ rest = []) ∧ rest.length ≤ data.length ∧
          ((none : Option GebrCommHttpMsg) = none → rest.length < data.length) := by
      intro type method same
      obtain ⟨rfl, rfl⟩ := Parsing.msg.inj same
      have spec := parseLoop_spec (gebrCommHttpMsgNew type method) data
      exact ⟨spec.1, spec.2, fun _ => parseLoop_length_lt rfl rfl some_byte⟩
    unfold gebrCommHttpMsgNewParsing parsingBy at called
    simp only at called
    split_ifs at called
    · exact started _ _ called
    · exact started _ _ called
    · exact started _ _ called

theorem parseLoop_suffix (msg : GebrCommHttpMsg) (data : Bytes) : (parseLoop msg data).2 <:+ data := by
  have header : (if msg.parsedHeaders then (msg, data) else parseHeaders msg data).2 <:+ data := by
    split
    · exact List.suffix_refl _
    · unfold parseHeaders
      simp only
      split
      · exact List.nil_suffix
      · exact List.drop_suffix _ _
  unfold parseLoop
  generalize (if msg.parsedHeaders then (msg, data) else parseHeaders msg data) = left at header
  obtain ⟨next, rest⟩ := left
  simp only at header ⊢
  split
  · refine List.IsSuffix.trans ?_ header
    unfold parseContent
    split
    · exact List.nil_suffix
    · simp only
      split
      · exact List.drop_suffix _ _
      · exact List.nil_suffix
  · exact header

theorem newParsing_suffix {partialMsg : Option GebrCommHttpMsg}
    (called : gebrCommHttpMsgNewParsing partialMsg data = .msg next rest) : rest <:+ data := by
  have looped : ∀ msg : GebrCommHttpMsg,
      Parsing.msg (parseLoop msg data).1 (parseLoop msg data).2 = .msg next rest → rest <:+ data := by
    intro msg same
    obtain ⟨-, rfl⟩ := Parsing.msg.inj same
    exact parseLoop_suffix msg data
  unfold gebrCommHttpMsgNewParsing parsingBy at called
  cases partialMsg with
  | some msg =>
    simp only at called
    split_ifs at called
    · exact looped _ called
    · obtain ⟨-, rfl⟩ := Parsing.msg.inj called
      exact List.suffix_refl _
  | none =>
    simp only at called
    split_ifs at called
    · exact looped _ called
    · exact looped _ called
    · exact looped _ called

end Progress

end Gebr.Comm
