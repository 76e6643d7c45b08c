/-
**What is written is read again.**

A tree of nodes is written, on one line or indented, and read. It comes back with one change: a
vertical tab in a string has become the letter v, because it is written with an escape that the
scanner does not know. A name is written as it is, so it has to be plain, and a name that is empty
would be left out.

* `Writable`: a tree without doubles, whose names are plain and distinct and whose strings are C
  strings.
* `rereadNode`: a tree, with the vertical tabs of its strings turned into letters.
* `Reads`, `ReadsElements`, `ReadsMembers`: what is written is read as a node, as elements and as
  members.
* `array_step`, `object_step`: one turn of the two loops.
* `node_written`: **every tree is read as it was written**, at any level of indentation.
* `written_load` — **a text that is written loads as the tree that it was written from**.
-/

import Gebr.Json.Parser

namespace Gebr.Json

open Gebr.Lib
open Gebr.Lib.CString (ascii decimal)
open Gebr.Lib.Numerals (printInt)

section Trees

mutual

/-- A tree that can be written and read again. -/
def Writable : JsonNode → Prop
  | .double _ _ => False
  | .string str => 0 ∉ str
  | .array elements => WritableElements elements
  | .object members => (NamedTable.names members).Nodup ∧ WritableMembers members
  | _ => True

def WritableElements : List JsonNode → Prop
  | [] => True
  | node :: more => Writable node ∧ WritableElements more

def WritableMembers : List (Bytes × JsonNode) → Prop
  | [] => True
  | (name, node) :: more => PlainName name ∧ Writable node ∧ WritableMembers more

end

mutual

/-- A tree, when it is read again. -/
def rereadNode : JsonNode → JsonNode
  | .string str => .string (str.map reread)
  | .array elements => .array (rereadElements elements)
  | .object members => .object (rereadMembers members)
  | node => node

def rereadElements : List JsonNode → List JsonNode
  | [] => []
  | node :: more => rereadNode node :: rereadElements more

def rereadMembers : List (Bytes × JsonNode) → List (Bytes × JsonNode)
  | [] => []
  | (name, node) :: more => (name, rereadNode node) :: rereadMembers more

end

theorem names_rereadMembers (members : List (Bytes × JsonNode)) :
    NamedTable.names (rereadMembers members) = NamedTable.names members := by
  induction members with
  | nil => rfl
  | cons member more ih =>
    rw [rereadMembers, NamedTable.names, List.map_cons]
    exact congrArg (member.1 :: ·) ih

/-- A generator whose margins are passed over. -/
def JsonGenerator.Blank (generator : JsonGenerator) : Prop :=
  generator.pretty = true → isSkip generator.indentChar = true

variable {generator : JsonGenerator}

theorem blank_gap (generator : JsonGenerator) : isSkip generator.gap = true := by
  unfold JsonGenerator.gap
  split <;> rfl

theorem isEnd_of_isSkip {c : UInt8} (blank : isSkip c = true) :
    isEnd c = true := by simp [isEnd, blank]

theorem blank_margin (blank : generator.Blank) (level : ℕ) :
    ∀ c ∈ generator.margin level, isSkip c = true := by
  intro c member
  unfold JsonGenerator.margin at member
  split_ifs at member with pretty
  · obtain rfl := List.eq_of_mem_replicate member
    exact blank pretty
  · cases member

theorem margin_zero (generator : JsonGenerator) : generator.margin 0 = [] := by
  simp [JsonGenerator.margin]

theorem next_eq {text : Bytes} {scanned : Token × Bytes} (found : nextToken text = some scanned) :
    next text = .ok scanned := by
  rw [next, found]

theorem next_blanks {blanks : Bytes} (all : ∀ c ∈ blanks, isSkip c = true) (text : Bytes) :
    next (blanks ++ text) = next text := by
  rw [next, nextToken_blanks all, next]

theorem next_skip {c : UInt8} (blank : isSkip c = true) (text : Bytes) :
    next (c :: text) = next text := by
  rw [next, nextToken_skip blank, next]

end Trees

section Values

/-- What is written is read as a node, when what is behind it ends it. -/
def Reads (core : Bytes) (node : JsonNode) : Prop :=
  ∀ c text, isEnd c = true → ∃ token rest turns, next (core ++ c :: text) = .ok (token, rest) ∧
    token ≠ .char 93 ∧ token ≠ .char 44 ∧ parseNode turns token rest = .ok (node, c :: text)

theorem reads_null : Reads (ascii "null") .null := by
  intro c text ends
  exact ⟨_, _, 1, next_eq (nextToken_word 110 [117, 108, 108] rfl rfl ends text), by decide,
    by decide, rfl⟩

theorem reads_boolean (b : Bool) :
    Reads (if b = true then ascii "true" else ascii "false") (.boolean b) := by
  intro c text ends
  cases b with
  | true =>
    exact ⟨_, _, 1, next_eq (nextToken_word 116 [114, 117, 101] rfl rfl ends text), by decide,
      by decide, rfl⟩
  | false =>
    exact ⟨_, _, 1, next_eq (nextToken_word 102 [97, 108, 115, 101] rfl rfl ends text), by decide,
      by decide, rfl⟩

theorem reads_string {str : Bytes} (terminated : 0 ∉ str) :
    Reads (34 :: jsonStrescape str ++ [34]) (.string (str.map reread)) := by
  intro c text _
  have read : next (34 :: jsonStrescape str ++ [34] ++ c :: text) =
      .ok (.string (str.map reread), c :: text) := by
    have split : 34 :: jsonStrescape str ++ [34] ++ c :: text =
        34 :: (jsonStrescape str ++ 34 :: c :: text) := by simp
    rw [split]
    exact next_eq (nextToken_strescape terminated _)
  exact ⟨_, _, 1, read, Token.noConfusion, Token.noConfusion, rfl⟩

theorem reads_int (v : Int64) : Reads (formatInt v) (.int v) := by
  intro c text ends
  have fits := natAbs_toInt_lt v
  have number : next (decimal v.toInt.natAbs ++ c :: text) =
      .ok (.int (UInt64.ofNat v.toInt.natAbs), c :: text) :=
    next_eq (nextToken_decimal fits ends text)
  have read : (UInt64.ofNat v.toInt.natAbs).toNat = v.toInt.natAbs := by
    rw [UInt64.toNat_ofNat', Nat.mod_eq_of_lt fits]
  unfold formatInt printInt
  split_ifs with below
  · have value : -((v.toInt.natAbs : ℕ) : ℤ) = v.toInt := by omega
    refine ⟨.char 45, _, 1, next_eq (nextToken_mark rfl _), by decide, by decide, ?_⟩
    show (next (decimal v.toInt.natAbs ++ c :: text) >>= fun scanned => _) = _
    rw [number]
    show Except.ok (JsonNode.int (Int64.ofInt (-((UInt64.ofNat v.toInt.natAbs).toNat : ℤ))),
      c :: text) = _
    rw [read, value, Int64.ofInt_toInt]
  · have value : ((v.toInt.natAbs : ℕ) : ℤ) = v.toInt := by omega
    refine ⟨_, _, 1, number, Token.noConfusion, Token.noConfusion, ?_⟩
    show Except.ok (JsonNode.int (Int64.ofInt ((UInt64.ofNat v.toInt.natAbs).toNat : ℤ)),
      c :: text) = _
    rw [read, value, Int64.ofInt_toInt]

end Values

section Loops

/-- **One turn of the loop over an array.** -/
theorem array_step {turns more : ℕ} {elements : List JsonNode} {token after : Token}
    {text left rest : Bytes} {node : JsonNode} {result : JsonNode × Bytes}
    (goes : token ≠ .char 93 ∧ token ≠ .char 44)
    (parsed : parseNode turns token text = .ok (node, left)) (taken : next left = .ok (after, rest))
    (separated : after = .char 44 ∨ after = .char 93)
    (loop : jsonParseArray more (elements ++ [node]) after rest = .ok result) :
    ∃ turns, jsonParseArray turns elements token text = .ok result := by
  refine ⟨max turns more + 1, ?_⟩
  have first := parseNode_more (le_max_left turns more)
    (show Settled (parseNode turns token text) by rw [parsed]; simp [Settled])
  have others := jsonParseArray_more (le_max_right turns more)
    (show Settled (jsonParseArray more (elements ++ [node]) after rest) by rw [loop]; simp [Settled])
  rw [jsonParseArray, if_neg goes.1, if_neg goes.2, first, parsed]
  show (next left >>= fun scanned => _) = _
  rw [taken]
  show (if after = .char 44 ∨ after = .char 93 then _ else _) = _
  rw [if_pos separated, others, loop]

theorem array_comma {more : ℕ} {elements : List JsonNode} {token : Token} {text rest : Bytes}
    {result : JsonNode × Bytes} (taken : next text = .ok (token, rest))
    (loop : jsonParseArray more elements token rest = .ok result) :
    jsonParseArray (more + 1) elements (.char 44) text = .ok result := by
  rw [jsonParseArray, if_neg (by decide), if_pos rfl, taken]
  exact loop

/-- **One turn of the loop over an object.** -/
theorem object_step {turns more : ℕ} {members : List (Bytes × JsonNode)} {token after : Token}
    {name text behind value left rest : Bytes} {node : JsonNode} {result : JsonNode × Bytes}
    (colon : next text = .ok (.char 58, behind)) (begins : next behind = .ok (token, value))
    (parsed : parseNode turns token value = .ok (node, left)) (taken : next left = .ok (after, rest))
    (separated : after = .char 44 ∨ after = .char 125)
    (loop : jsonParseObject more (NamedTable.put name node members) after rest = .ok result) :
    ∃ turns, jsonParseObject turns members (.string name) text = .ok result := by
  refine ⟨max turns more + 1, ?_⟩
  have first := parseNode_more (le_max_left turns more)
    (show Settled (parseNode turns token value) by rw [parsed]; simp [Settled])
  have others := jsonParseObject_more (le_max_right turns more)
    (show Settled (jsonParseObject more (NamedTable.put name node members) after rest) by
      rw [loop]; simp [Settled])
  rw [jsonParseObject, if_neg Token.noConfusion, if_neg Token.noConfusion]
  show (next text >>= fun scanned => _) = _
  rw [colon]
  show (next behind >>= fun scanned => _) = _
  rw [begins]
  show (parseNode _ token value >>= fun parsed => _) = _
  rw [first, parsed]
  show (next left >>= fun scanned => _) = _
  rw [taken]
  show (if after = .char 44 ∨ after = .char 125 then _ else _) = _
  rw [if_pos separated, others, loop]

theorem object_comma {more : ℕ} {members : List (Bytes × JsonNode)} {token : Token}
    {text rest : Bytes} {result : JsonNode × Bytes} (taken : next text = .ok (token, rest))
    (loop : jsonParseObject more members token rest = .ok result) :
    jsonParseObject (more + 1) members (.char 44) text = .ok result := by
  unfold jsonParseObject
  rw [if_neg (by decide), if_pos rfl, taken]
  exact loop

/-- What is written is read as the elements of an array, up to the mark that closes it. -/
def ReadsElements (body : Bytes) (nodes : List JsonNode) : Prop :=
  ∀ blanks text before, (∀ c ∈ blanks, isSkip c = true) → ∃ token rest turns,
    next (body ++ blanks ++ 93 :: text) = .ok (token, rest) ∧
      jsonParseArray turns before token rest = .ok (.array (before ++ nodes), text)

/-- What is written is read as the members of an object, up to the mark that closes it. -/
def ReadsMembers (body : Bytes) (members : List (Bytes × JsonNode)) : Prop :=
  ∀ blanks text before, (∀ c ∈ blanks, isSkip c = true) →
    (NamedTable.names (before ++ members)).Nodup → ∃ token rest turns,
      next (body ++ blanks ++ 125 :: text) = .ok (token, rest) ∧ jsonParseObject turns before token
        rest = .ok (.object (before ++ members), text)

theorem readsElements_nil : ReadsElements [] [] := by
  intro blanks text before all
  refine ⟨.char 93, text, 1, ?_, by rw [List.append_nil]; rfl⟩
  rw [List.nil_append, next_blanks all]
  exact next_eq (nextToken_mark rfl text)

theorem readsMembers_nil : ReadsMembers [] [] := by
  intro blanks text before all _
  refine ⟨.char 125, text, 1, ?_, by rw [List.append_nil]; rfl⟩
  rw [List.nil_append, next_blanks all]
  exact next_eq (nextToken_mark rfl text)

variable {generator : JsonGenerator} {core body margin : Bytes} {node : JsonNode} {name : Bytes}

theorem readsElements_one (blank : ∀ c ∈ margin, isSkip c = true) (reads : Reads core node)
    {gap : UInt8} (skip : isSkip gap = true) : ReadsElements (margin ++ core ++ [gap]) [node] := by
  intro blanks text before all
  obtain ⟨token, rest, turns, first, open_mark, comma, parsed⟩ :=
    reads gap (blanks ++ 93 :: text) (isEnd_of_isSkip skip)
  have taken : next (gap :: (blanks ++ 93 :: text)) = .ok (.char 93, text) := by
    rw [next_skip skip, next_blanks all]
    exact next_eq (nextToken_mark rfl text)
  have loop : jsonParseArray 1 (before ++ [node]) (.char 93) text =
      .ok (.array (before ++ [node]), text) := rfl
  obtain ⟨turns, done⟩ := array_step ⟨open_mark, comma⟩ parsed taken (Or.inr rfl) loop
  refine ⟨token, rest, turns, ?_, done⟩
  have split : margin ++ core ++ [gap] ++ blanks ++ 93 :: text = margin ++
      (core ++ gap :: (blanks ++ 93 :: text)) := by simp
  rw [split, next_blanks blank, first]

theorem readsElements_cons (blank : ∀ c ∈ margin, isSkip c = true) (reads : Reads core node)
    {gap : UInt8} (skip : isSkip gap = true) {nodes : List JsonNode}
    (others : ReadsElements body nodes) :
    ReadsElements (margin ++ core ++ [44, gap] ++ body) (node :: nodes) := by
  intro blanks text before all
  obtain ⟨token, rest, turns, first, open_mark, comma, parsed⟩ :=
    reads 44 (gap :: (body ++ blanks ++ 93 :: text)) rfl
  obtain ⟨after, behind, more, second, loop⟩ := others blanks text (before ++ [node]) all
  have taken : next (44 :: gap :: (body ++ blanks ++ 93 :: text)) =
      .ok (.char 44, gap :: (body ++ blanks ++ 93 :: text)) :=
    next_eq (nextToken_mark rfl _)
  have passed := array_comma
      (show next (gap :: (body ++ blanks ++ 93 :: text)) = .ok (after, behind) by
    rw [next_skip skip, second]) loop
  obtain ⟨turns, done⟩ := array_step ⟨open_mark, comma⟩ parsed taken (Or.inl rfl) passed
  refine ⟨token, rest, turns, ?_, by rw [done]; simp⟩
  have split : margin ++ core ++ [44, gap] ++ body ++ blanks ++ 93 :: text =
      margin ++ (core ++ 44 :: gap :: (body ++ blanks ++ 93 :: text)) := by simp
  rw [split, next_blanks blank, first]

theorem next_label (blank : ∀ c ∈ margin, isSkip c = true) (plain : PlainName name) (text : Bytes) :
    next (margin ++ (34 :: name ++ 34 :: ascii " : ") ++ text) = .ok
    (.string name, ascii " : " ++ text) := by
  have split : margin ++ (34 :: name ++ 34 :: ascii " : ") ++ text = margin ++
      34 :: (name ++ 34 :: (ascii " : " ++ text)) := by
    simp
  rw [split, next_blanks blank]
  exact next_eq (nextToken_name plain.2 _)

theorem next_colon (text : Bytes) : next (ascii " : " ++ text) = .ok (.char 58, 32 :: text) :=
  (next_skip rfl _).trans (next_eq (nextToken_mark rfl (32 :: text)))

theorem fresh_of_nodup {before members : List (Bytes × JsonNode)}
    (distinct : (NamedTable.names (before ++ (name, node) :: members)).Nodup) :
    name ∉ NamedTable.names before := by
  intro member
  rw [NamedTable.names, List.map_append] at distinct
  exact (List.nodup_append.1 distinct).2.2 name member name List.mem_cons_self rfl

theorem readsMembers_one (blank : ∀ c ∈ margin, isSkip c = true) (plain : PlainName name)
    (reads : Reads core node) {gap : UInt8} (skip : isSkip gap = true) :
    ReadsMembers (margin ++ (34 :: name ++ 34 :: ascii " : ") ++ core ++ [gap]) [(name, node)] := by
  intro blanks text before all distinct
  obtain ⟨token, rest, turns, first, -, -, parsed⟩ := reads gap (blanks ++ 125 :: text)
    (isEnd_of_isSkip skip)
  have taken : next (gap :: (blanks ++ 125 :: text)) = .ok (.char 125, text) := by
    rw [next_skip skip, next_blanks all]
    exact next_eq (nextToken_mark rfl text)
  have loop : jsonParseObject 1 (NamedTable.put name node before) (.char 125) text =
      .ok (.object (before ++ [(name, node)]), text) := by
    rw [NamedTable.put_of_notMem (fresh_of_nodup distinct)]
    rfl
  obtain ⟨turns, done⟩ := object_step (next_colon _) ((next_skip rfl _).trans first) parsed taken
    (Or.inr rfl) loop
  refine ⟨.string name, _, turns, ?_, done⟩
  have split : margin ++ (34 :: name ++ 34 :: ascii " : ") ++ core ++ [gap] ++ blanks ++ 125 :: text =
      margin ++ (34 :: name ++ 34 :: ascii " : ") ++ (core ++ gap :: (blanks ++ 125 :: text)) := by
        simp
  rw [split, next_label blank plain]

theorem readsMembers_cons (blank : ∀ c ∈ margin, isSkip c = true) (plain : PlainName name)
    (reads : Reads core node) {gap : UInt8} (skip : isSkip gap = true)
    {members : List (Bytes × JsonNode)} (others : ReadsMembers body members) :
    ReadsMembers (margin ++ (34 :: name ++ 34 :: ascii " : ") ++ core ++ [44, gap] ++ body)
    ((name, node) :: members) := by
  intro blanks text before all distinct
  have put : NamedTable.put name node before = before ++ [(name, node)] :=
    NamedTable.put_of_notMem (fresh_of_nodup distinct)
  obtain ⟨token, rest, turns, first, -, -, parsed⟩ :=
    reads 44 (gap :: (body ++ blanks ++ 125 :: text)) rfl
  obtain ⟨after, behind, more, second, loop⟩ := others blanks text (NamedTable.put name node before)
    all (by rw [put, List.append_assoc]; exact distinct)
  have taken : next (44 :: gap :: (body ++ blanks ++ 125 :: text)) =
      .ok (.char 44, gap :: (body ++ blanks ++ 125 :: text)) :=
    next_eq (nextToken_mark rfl _)
  have passed := object_comma
      (show next (gap :: (body ++ blanks ++ 125 :: text)) = .ok (after, behind) by
    rw [next_skip skip, second]) loop
  obtain ⟨turns, done⟩ := object_step (next_colon _) ((next_skip rfl _).trans first) parsed taken
    (Or.inl rfl) passed
  refine ⟨.string name, _, turns, ?_, by rw [done, put]; simp⟩
  have split : margin ++ (34 :: name ++ 34 :: ascii " : ") ++ core ++ [44, gap] ++ body ++ blanks ++
      125 :: text = margin ++ (34 :: name ++ 34 :: ascii " : ") ++
        (core ++ 44 :: gap :: (body ++ blanks ++ 125 :: text)) := by simp
  rw [split, next_label blank plain]

end Loops

section Written

variable {generator : JsonGenerator}

/-- The text of a node, behind its margin and its name. -/
def Written (generator : JsonGenerator) (level : ℕ) (node : JsonNode) (core : Bytes) : Prop :=
  ∀ label, dumpNode generator level label node = some (generator.margin level ++ label ++ core)

theorem next_array {body margin : Bytes} {nodes : List JsonNode} (reads : ReadsElements body nodes)
    (blank : ∀ c ∈ margin, isSkip c = true) {gap : UInt8} (skip : isSkip gap = true) (text : Bytes) :
    ∃ rest turns, next (91 :: gap :: body ++ margin ++ [93] ++ text) = .ok (.char 91, rest) ∧
      parseNode turns (.char 91) rest = .ok (.array nodes, text) := by
  obtain ⟨token, rest, turns, first, loop⟩ := reads margin text [] blank
  refine ⟨gap :: (body ++ margin ++ 93 :: text), turns + 1, ?_, ?_⟩
  · have split : 91 :: gap :: body ++ margin ++ [93] ++ text =
        91 :: (gap :: (body ++ margin ++ 93 :: text)) := by simp
    rw [split]
    exact next_eq (nextToken_mark rfl _)
  · rw [parseNode, if_neg (by decide), if_pos rfl, next_skip skip, first]
    exact loop

/-- An object in its marks, whatever is behind it. -/
theorem next_object {body margin : Bytes} {members : List (Bytes × JsonNode)}
    (reads : ReadsMembers body members) (blank : ∀ c ∈ margin, isSkip c = true) {gap : UInt8}
    (skip : isSkip gap = true) (distinct : (NamedTable.names members).Nodup) (text : Bytes) :
    ∃ rest turns, next (123 :: gap :: body ++ margin ++ [125] ++ text) = .ok (.char 123, rest) ∧
      parseNode turns (.char 123) rest = .ok (.object members, text) := by
  obtain ⟨token, rest, turns, first, loop⟩ := reads margin text [] blank distinct
  refine ⟨gap :: (body ++ margin ++ 125 :: text), turns + 1, ?_, ?_⟩
  · have split : 123 :: gap :: body ++ margin ++ [125] ++ text =
        123 :: (gap :: (body ++ margin ++ 125 :: text)) := by simp
    rw [split]
    exact next_eq (nextToken_mark rfl _)
  · rw [parseNode, if_pos rfl, next_skip skip, first]
    exact loop

/-- A plain name is written in front of every member. -/
theorem labelOf_plain {name : Bytes} (plain : PlainName name) (node : JsonNode) :
    labelOf name node = 34 :: name ++ 34 :: ascii " : " := by
  unfold labelOf
  split
  · exact absurd rfl plain.1
  · exact absurd rfl plain.1
  · rfl

mutual

/-- **Every tree is read as it was written.** -/
theorem node_written (blank : generator.Blank) (level : ℕ) : ∀ node, Writable node →
    ∃ core, Written generator level node core ∧ Reads core (rereadNode node)
  | .null, _ => ⟨ascii "null", fun _ => rfl, reads_null⟩
  | .int v, _ => ⟨formatInt v, fun _ => rfl, reads_int v⟩
  | .double _ _, writable => absurd writable id
  | .string str, terminated =>
    ⟨34 :: jsonStrescape str ++ [34], fun label => by simp [dumpNode, dumpValue],
      reads_string terminated⟩
  | .boolean b, _ => ⟨_, fun _ => rfl, reads_boolean b⟩
  | .array elements, writable => by
    obtain ⟨body, dumped, reads⟩ := elements_written blank (level + 1) elements writable
    refine ⟨91 :: generator.gap :: body ++ generator.margin level ++ [93], fun label => ?_,
      fun c text _ => ?_⟩
    · simp [dumpNode, dumped]
    · obtain ⟨rest, turns, first, parsed⟩ := next_array reads (blank_margin blank level)
        (blank_gap generator) (c :: text)
      exact ⟨_, rest, turns, first, by decide, by decide, parsed⟩
  | .object members, writable => by
    obtain ⟨body, dumped, reads⟩ := members_written blank (level + 1) members writable.2
    refine ⟨123 :: generator.gap :: body ++ generator.margin level ++ [125], fun label => ?_,
      fun c text _ => ?_⟩
    · simp [dumpNode, dumped]
    · obtain ⟨rest, turns, first, parsed⟩ := next_object reads (blank_margin blank level)
        (blank_gap generator) (by rw [names_rereadMembers]; exact writable.1) (c :: text)
      exact ⟨_, rest, turns, first, by decide, by decide, parsed⟩

theorem elements_written (blank : generator.Blank) (level : ℕ) :
    ∀ elements, WritableElements elements → ∃ body, dumpElements generator level elements =
    some body ∧ ReadsElements body (rereadElements elements)
  | [], _ => ⟨[], rfl, readsElements_nil⟩
  | [node], writable => by
    obtain ⟨core, written, reads⟩ := node_written blank level node writable.1
    refine ⟨_, ?_, readsElements_one (blank_margin blank level) reads (blank_gap generator)⟩
    simp [dumpElements, written [], JsonGenerator.behind]
  | node :: other :: more, writable => by
    obtain ⟨core, written, reads⟩ := node_written blank level node writable.1
    obtain ⟨body, dumped, others⟩ := elements_written blank level (other :: more) writable.2
    refine ⟨_, ?_, readsElements_cons (blank_margin blank level) reads (blank_gap generator) others⟩
    rw [dumpElements, written [], dumped]
    simp [JsonGenerator.behind]

theorem members_written (blank : generator.Blank) (level : ℕ) : ∀ members, WritableMembers members →
    ∃ body, dumpMembers generator level members = some body ∧ ReadsMembers body
    (rereadMembers members)
  | [], _ => ⟨[], rfl, readsMembers_nil⟩
  | [(name, node)], writable => by
    obtain ⟨core, written, reads⟩ := node_written blank level node writable.2.1
    refine ⟨_, ?_, readsMembers_one (blank_margin blank level) writable.1 reads (blank_gap generator)⟩
    simp [dumpMembers, written _, labelOf_plain writable.1, JsonGenerator.behind]
  | (name, node) :: other :: more, writable => by
    obtain ⟨core, written, reads⟩ := node_written blank level node writable.2.1
    obtain ⟨body, dumped, others⟩ := members_written blank level (other :: more) writable.2.2
    refine ⟨_, ?_, readsMembers_cons (blank_margin blank level) writable.1 reads
      (blank_gap generator) others⟩
    rw [dumpMembers, written _, dumped, labelOf_plain writable.1]
    simp [JsonGenerator.behind]

end

/-- A node that `json_generator_to_data` takes as the root. -/
def JsonNode.isRoot : JsonNode → Bool
  | .null | .array _ | .object _ => true
  | _ => false

/-- A text that is one container loads as it. -/
theorem load_container {text rest : Bytes} {token : Token} {turns : ℕ} {node : JsonNode}
    (start : next text = .ok (token, rest)) (container : token = .char 91 ∨ token = .char 123)
    (parsed : parseNode turns token rest = .ok (node, [])) :
    jsonParserLoad text = (.node node, .ok ()) := by
  have other : token ≠ .eof := by rcases container with rfl | rfl <;> decide
  have less := (next_shorter start).2 other
  have enough : parseNode (2 * text.length + 1) token rest = .ok (node, []) :=
    parseNode_enough parsed (by omega)
  have statement : jsonParseStatement (2 * text.length + 2) .none text = (.node node, .ok []) := by
    rw [jsonParseStatement, start]
    dsimp only
    rcases container with rfl | rfl <;> simp [parseTopToken, parseContainer, enough]
  obtain ⟨more, some_text⟩ := Nat.exists_eq_add_of_lt (Nat.zero_lt_of_lt less)
  have last : loadLoop text.length (.node node) [] = (.node node, .ok ()) := by
    rw [some_text, Nat.zero_add]
    rfl
  rw [jsonParserLoad, loadLoop, start]
  rcases container with rfl | rfl <;> simp [statement, last]

/-- **A text that is written loads as the tree that it was written from.** -/
theorem written_load (blank : generator.Blank) {root : JsonNode} (writable : Writable root)
    (whole : root.isRoot = true) : ∃ data, jsonGeneratorToData generator root = some data ∧
      jsonParserLoad data = (.node (rereadNode root), .ok ()) := by
  have margin := margin_zero generator
  have none_there : ∀ c ∈ ([] : Bytes), isSkip c = true := fun _ member =>
    absurd member List.not_mem_nil
  cases root with
  | null => exact ⟨ascii "null", rfl, rfl⟩
  | array elements =>
    obtain ⟨body, dumped, reads⟩ := elements_written blank 1 elements writable
    obtain ⟨rest, turns, first, parsed⟩ := next_array reads none_there (blank_gap generator) []
    refine ⟨_, ?_, load_container first (Or.inl rfl) parsed⟩
    simp [jsonGeneratorToData, dumpNode, dumped, margin]
  | object members =>
    obtain ⟨body, dumped, reads⟩ := members_written blank 1 members writable.2
    obtain ⟨rest, turns, first, parsed⟩ := next_object reads none_there (blank_gap generator)
      (by rw [names_rereadMembers]; exact writable.1) []
    refine ⟨_, ?_, load_container first (Or.inr rfl) parsed⟩
    simp [jsonGeneratorToData, dumpNode, dumped, margin]
  | int v => cases whole
  | double negative literal => cases whole
  | string str => cases whole
  | boolean b => cases whole

/-- A node of every kind but doubles. -/
def everyKind : JsonNode :=
  .object [(ascii "list", .array [.null, .int (-5), .boolean true, .array [], .object []]),
    (ascii "text", .string (ascii "a\"b\\c" ++ [10]))]

theorem written_load_everyKind : ∃ data, jsonGeneratorToData prettyGenerator everyKind = some data ∧
    jsonParserLoad data = (.node (rereadNode everyKind), .ok ()) := by
  have list_name : PlainName (ascii "list") := plainName_of_all (by decide) (by decide)
  have text_name : PlainName (ascii "text") := plainName_of_all (by decide) (by decide)
  have list : Writable (.array [.null, .int (-5), .boolean true, .array [], .object []]) :=
    ⟨trivial, trivial, trivial, trivial, ⟨List.nodup_nil, trivial⟩, trivial⟩
  have text : 0 ∉ ascii "a\"b\\c" ++ [10] := by decide
  exact written_load (fun _ => rfl) ⟨by decide, list_name, list, text_name, text, trivial⟩ rfl

end Written

end Gebr.Json
