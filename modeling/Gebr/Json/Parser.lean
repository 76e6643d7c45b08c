/-
**JSON as it is read.**

The parser takes tokens, and builds arrays and objects out of them. It passes over commas, however
many there are. A text may have several statements, of which the last one is kept, and a statement
may be an assignment.

* `Stop`: why a text is not read; the text that is left tells where.
* `parseNode`, `jsonParseArray`, `jsonParseObject`: the loops.
* `jsonParseStatement`, `jsonParserLoad`: a statement, and a whole text.
* `parse_more`, `parse_enough`, `jsonParserLoad_ends` — **the loops come to their end on every
  text**.
-/

import Gebr.Json.Generator
import Gebr.Lib.NamedTable

namespace Gebr.Json

open Gebr.Lib

section Model

/-- Why the parser stops: an assertion of the scanner, a token that is not expected, with the text
behind it, or no more turns. -/
inductive Stop where
  | assertion
  | unexpected (text : Bytes)
  | turns
  deriving DecidableEq, Repr

/-- `json_scanner_get_next_token`. -/
def next (text : Bytes) : Except Stop (Token × Bytes) :=
  match nextToken text with
  | none => .error .assertion
  | some scanned => .ok scanned

/-- The number of a token, with its sign. -/
def numberNode (negative : Bool) : Token → Option JsonNode
  | .int v => some (.int (Int64.ofInt (if negative = true then -(v.toNat : ℤ) else v.toNat)))
  | .float literal => some (.double negative literal)
  | _ => none

/-- `json_parse_value`. -/
def jsonParseValue (token : Token) (text : Bytes) : Except Stop (JsonNode × Bytes) :=
  match token with
  | .char 45 => do
    let (number, rest) ← next text
    match numberNode true number with
    | some node => .ok (node, rest)
    | none => .error (.unexpected text)
  | .string str => .ok (.string str, text)
  | .symbol .jsonTrue => .ok (.boolean true, text)
  | .symbol .jsonFalse => .ok (.boolean false, text)
  | .symbol .jsonNull => .ok (.null, text)
  | token =>
    match numberNode false token with
    | some node => .ok (node, text)
    | none => .error (.unexpected text)

mutual

/-- What is done at an element, and at the value of a member: an object, an array, or a value. -/
def parseNode : ℕ → Token → Bytes → Except Stop (JsonNode × Bytes)
  | 0, _, _ => .error .turns
  | turns + 1, token, text =>
    if token = .char 123 then do
      let (token, text) ← next text
      jsonParseObject turns [] token text
    else if token = .char 91 then do
      let (token, text) ← next text
      jsonParseArray turns [] token text
    else jsonParseValue token text

/-- The loop of `json_parse_array`. -/
def jsonParseArray : ℕ → List JsonNode → Token → Bytes → Except Stop (JsonNode × Bytes)
  | 0, _, _, _ => .error .turns
  | turns + 1, elements, token, text =>
    if token = .char 93 then .ok (.array elements, text)
    else if token = .char 44 then do
      let (token, text) ← next text
      jsonParseArray turns elements token text
    else do
      let (node, text) ← parseNode turns token text
      let (token, text) ← next text
      if token = .char 44 ∨ token = .char 93 then jsonParseArray turns (elements ++ [node]) token text
      else .error (.unexpected text)

/-- The loop of `json_parse_object`; a member takes the place of another one of its name. -/
def jsonParseObject : ℕ → List (Bytes × JsonNode) → Token → Bytes → Except Stop (JsonNode × Bytes)
  | 0, _, _, _ => .error .turns
  | turns + 1, members, token, text =>
    if token = .char 125 then .ok (.object members, text)
    else if token = .char 44 then do
      let (token, text) ← next text
      jsonParseObject turns members token text
    else
      match token with
      | .string name => do
        let (colon, text) ← next text
        if colon = .char 58 then do
          let (token, text) ← next text
          let (node, text) ← parseNode turns token text
          let (token, text) ← next text
          if token = .char 44 ∨ token = .char 125 then
            jsonParseObject turns (NamedTable.put name node members) token text
          else .error (.unexpected text)
        else .error (.unexpected text)
      | _ => .error (.unexpected text)

end

/-- The root of a parser: none, a node, or one whose contents could not be read. -/
inductive Root where
  | none
  | node (node : JsonNode)
  | unset

/-- An object or an array at the top. -/
def parseContainer (turns : ℕ) (token : Token) (text : Bytes) : Root × Except Stop Bytes :=
  match parseNode turns token text with
  | .ok (node, text) => (.node node, .ok text)
  | .error stop => (.unset, .error stop)

/-- A value at the top: the token behind it is taken too. -/
def parseTop (node : JsonNode) (text : Bytes) : Root × Except Stop Bytes :=
  (.node node, (next text).map Prod.snd)

/-- A statement that is no assignment. -/
def parseTopToken (turns : ℕ) (root : Root) (token : Token) (text : Bytes) :
    Root × Except Stop Bytes :=
  match token with
  | .char 123 => parseContainer turns (.char 123) text
  | .char 91 => parseContainer turns (.char 91) text
  | .symbol .jsonNull => (.node .null, .ok text)
  | .symbol .jsonTrue => (.node (.boolean true), .ok text)
  | .symbol .jsonFalse => (.node (.boolean false), .ok text)
  | .char 45 =>
    match next text with
    | .error stop => (root, .error stop)
    | .ok (number, rest) =>
      match numberNode true number with
      | some node => parseTop node rest
      | none => (root, .error (.unexpected text))
  | .string str => parseTop (.string str) text
  | token =>
    match numberNode false token with
    | some node => parseTop node text
    | none => (root, .error (.unexpected text))

/-- The name of an assignment, and the mark behind it. -/
def takeAssignment (text : Bytes) : Except Stop Bytes := do
  let (name, text) ← next text
  match name with
  | .identifier _ => do
    let (mark, text) ← next text
    if mark = .char 61 then .ok text else .error (.unexpected text)
  | _ => .error (.unexpected text)

/-- The semicolon behind an assignment is taken, and makes good what was not expected. -/
def takeSemicolon (result : Except Stop Bytes) : Except Stop Bytes :=
  match result with
  | .ok left => do
    let (token, rest) ← next left
    if token = .char 59 then .ok rest else .ok left
  | .error (.unexpected left) => do
    let (token, rest) ← next left
    if token = .char 59 then .ok rest else .error (.unexpected left)
  | .error stop => .error stop

/-- `json_parse_statement`. -/
def jsonParseStatement : ℕ → Root → Bytes → Root × Except Stop Bytes
  | 0, root, _ => (root, .error .turns)
  | turns + 1, root, text =>
    match next text with
    | .error stop => (root, .error stop)
    | .ok (token, rest) =>
      if token = .symbol .jsonVar then
        match takeAssignment rest with
        | .error stop => (root, .error stop)
        | .ok rest =>
          ((jsonParseStatement turns root rest).1,
            takeSemicolon (jsonParseStatement turns root rest).2)
      else parseTopToken turns root token rest

/-- The loop of `json_parser_load`: the root, and why it stopped before the end. -/
def loadLoop : ℕ → Root → Bytes → Root × Except Stop Unit
  | 0, root, _ => (root, .error .turns)
  | turns + 1, root, text =>
    match next text with
    | .error stop => (root, .error stop)
    | .ok (.eof, _) => (root, .ok ())
    | .ok _ =>
      match jsonParseStatement (2 * text.length + 2) root text with
      | (root, .ok rest) => loadLoop turns root rest
      | (root, .error stop) => (root, .error stop)

/-- `json_parser_load`, with the root of the parser. -/
def jsonParserLoad (data : Bytes) : Root × Except Stop Unit := loadLoop (data.length + 1) .none data

end Model

section Turns

/-- A result that more turns do not change. -/
def Settled {α : Type} (result : Except Stop α) : Prop := result ≠ .error .turns

theorem settled_next (text : Bytes) : Settled (next text) := by
  unfold Settled next
  split <;> simp

theorem Settled.bind {α β : Type} {first : Except Stop α} {rest : α → Except Stop β}
    (settled : Settled first) (all : ∀ value, first = .ok value → Settled (rest value)) :
    Settled (first >>= rest) := by
  cases first with
  | error stop => exact fun same => settled (by cases same; rfl)
  | ok value => exact all value rfl

theorem settled_jsonParseValue (token : Token) (text : Bytes) :
    Settled (jsonParseValue token text) := by
  unfold jsonParseValue
  split
  · refine (settled_next text).bind fun scanned _ => ?_
    dsimp only
    split <;> simp [Settled]
  · simp [Settled]
  · simp [Settled]
  · simp [Settled]
  · simp [Settled]
  · split <;> simp [Settled]

/-- What follows a settled result, when it is settled itself, does not change with what does not
change. -/
theorem settled_bind {α β : Type} {first more : Except Stop α} {rest others : α → Except Stop β}
    (settled : Settled (first >>= rest)) (same : Settled first → more = first)
    (then_same : ∀ value, Settled (rest value) → others value = rest value) :
    (more >>= others) = (first >>= rest) := by
  cases first with
  | error stop =>
    have stays : Settled (Except.error stop : Except Stop α) := fun turns =>
      settled (by cases turns; rfl)
    rw [same stays]
    rfl
  | ok value =>
    rw [same (by simp [Settled])]
    exact then_same value settled

/-- **One turn more changes nothing that is settled.** -/
theorem parse_succ (turns : ℕ) :
    (∀ token text, Settled (parseNode turns token text) → parseNode (turns + 1) token text =
    parseNode turns token text) ∧
      (∀ elements token text, Settled (jsonParseArray turns elements token text) →
    jsonParseArray (turns + 1) elements token text = jsonParseArray turns elements token text) ∧
      (∀ members token text, Settled (jsonParseObject turns members token text) →
      jsonParseObject (turns + 1) members token text = jsonParseObject turns members token text) := by
  induction turns with
  | zero => exact ⟨fun _ _ settled => absurd rfl settled, fun _ _ _ settled => absurd rfl settled,
      fun _ _ _ settled => absurd rfl settled⟩
  | succ turns ih =>
    obtain ⟨node, array, object⟩ := ih
    refine ⟨fun token text settled => ?_, fun elements token text settled => ?_,
      fun members token text settled => ?_⟩
    · unfold parseNode at settled ⊢
      split_ifs at settled ⊢
      · exact settled_bind settled (fun _ => rfl) fun scanned => object [] scanned.1 scanned.2
      · exact settled_bind settled (fun _ => rfl) fun scanned => array [] scanned.1 scanned.2
      · rfl
    · unfold jsonParseArray at settled ⊢
      split_ifs at settled ⊢
      · rfl
      · exact settled_bind settled (fun _ => rfl) fun scanned => array elements scanned.1 scanned.2
      · refine settled_bind settled (node token text) ?_
        rintro ⟨element, left⟩ settled
        refine settled_bind settled (fun _ => rfl) ?_
        rintro ⟨after, rest⟩ settled
        dsimp only at settled ⊢
        split_ifs at settled ⊢
        · exact array _ after rest settled
        · rfl
    · unfold jsonParseObject at settled ⊢
      split_ifs at settled ⊢
      · rfl
      · exact settled_bind settled (fun _ => rfl) fun scanned => object members scanned.1 scanned.2
      · cases token with
        | string name =>
          refine settled_bind settled (fun _ => rfl) ?_
          rintro ⟨colon, left⟩ settled
          dsimp only at settled ⊢
          split_ifs at settled ⊢
          · refine settled_bind settled (fun _ => rfl) ?_
            rintro ⟨token, left⟩ settled
            refine settled_bind settled (node token left) ?_
            rintro ⟨member, left⟩ settled
            refine settled_bind settled (fun _ => rfl) ?_
            rintro ⟨after, rest⟩ settled
            dsimp only at settled ⊢
            split_ifs at settled ⊢
            · exact object _ after rest settled
            · rfl
          · rfl
        | _ => rfl

/-- **More turns change nothing that is settled.** -/
theorem parseNode_more {turns more : ℕ} (le : turns ≤ more) {token : Token} {text : Bytes}
    (settled : Settled (parseNode turns token text)) :
    parseNode more token text = parseNode turns token text := by
  induction more, le using Nat.le_induction with
  | base => rfl
  | succ more _ ih => rw [(parse_succ more).1 token text (ih ▸ settled), ih]

theorem jsonParseArray_more {turns more : ℕ} (le : turns ≤ more) {elements : List JsonNode}
    {token : Token} {text : Bytes} (settled : Settled (jsonParseArray turns elements token text)) :
    jsonParseArray more elements token text = jsonParseArray turns elements token text := by
  induction more, le using Nat.le_induction with
  | base => rfl
  | succ more _ ih => rw [(parse_succ more).2.1 elements token text (ih ▸ settled), ih]

theorem jsonParseObject_more {turns more : ℕ} (le : turns ≤ more)
    {members : List (Bytes × JsonNode)} {token : Token} {text : Bytes}
    (settled : Settled (jsonParseObject turns members token text)) :
    jsonParseObject more members token text = jsonParseObject turns members token text := by
  induction more, le using Nat.le_induction with
  | base => rfl
  | succ more _ ih => rw [(parse_succ more).2.2 members token text (ih ▸ settled), ih]

end Turns

section Enough

/-- The text that is left is no longer than this. -/
def Within {α : Type} (bound : ℕ) (left : α → Bytes) : Except Stop α → Prop
  | .ok value => (left value).length ≤ bound
  | .error (.unexpected rest) => rest.length ≤ bound
  | .error _ => True

theorem Within.mono {α : Type} {bound more : ℕ} {left : α → Bytes} {result : Except Stop α}
    (within : Within bound left result) (le : bound ≤ more) : Within more left result := by
  match result, within with
  | .ok _, within => exact Nat.le_trans within le
  | .error (.unexpected _), within => exact Nat.le_trans within le
  | .error .assertion, _ => trivial
  | .error .turns, _ => trivial

theorem Within.bind {α β : Type} {bound : ℕ} {left : α → Bytes} {last : β → Bytes}
    {first : Except Stop α} {rest : α → Except Stop β} (within : Within bound left first)
    (all : ∀ value, first = .ok value → Within bound last (rest value)) :
    Within bound last (first >>= rest) := by
  match first, within with
  | .ok value, _ => exact all value rfl
  | .error (.unexpected _), within => exact within
  | .error .assertion, _ => trivial
  | .error .turns, _ => trivial

theorem next_shorter {text rest : Bytes} {token : Token} (taken : next text = .ok (token, rest)) :
    rest.length ≤ text.length ∧ (token ≠ .eof → rest.length < text.length) := by
  unfold next at taken
  split at taken
  · cases taken
  · rename_i found
    obtain rfl := Except.ok.inj taken
    exact nextToken_shorter found

theorem within_next (text : Bytes) : Within text.length Prod.snd (next text) := by
  cases taken : next text with
  | error stop =>
    unfold next at taken
    split at taken <;> cases taken
    trivial
  | ok scanned => exact (next_shorter taken).1

theorem within_jsonParseValue (token : Token) (text : Bytes) :
    Within text.length Prod.snd (jsonParseValue token text) := by
  have same : text.length ≤ text.length := le_rfl
  unfold jsonParseValue
  split
  · refine (within_next text).bind ?_
    rintro ⟨number, rest⟩ taken
    dsimp only
    split
    · exact (next_shorter taken).1
    · exact same
  · exact same
  · exact same
  · exact same
  · exact same
  · split <;> exact same

/-- **What is read is taken from the text**, and so is what is read before the parser stops. -/
theorem parse_within (turns : ℕ) :
    (∀ token text, Within text.length Prod.snd (parseNode turns token text)) ∧
    (∀ elements token text, Within text.length Prod.snd (jsonParseArray turns elements token text)) ∧
    (∀ members token text,
    Within text.length Prod.snd (jsonParseObject turns members token text)) := by
  induction turns with
  | zero => exact ⟨fun _ _ => trivial, fun _ _ _ => trivial, fun _ _ _ => trivial⟩
  | succ turns ih =>
    obtain ⟨node, array, object⟩ := ih
    have array_next {text rest : Bytes} {token : Token} (taken : next text = .ok (token, rest))
        (elements : List JsonNode) : Within text.length Prod.snd
            (jsonParseArray turns elements token rest) :=
      (array elements token rest).mono (next_shorter taken).1
    have object_next {text rest : Bytes} {token : Token} (taken : next text = .ok (token, rest))
        (members : List (Bytes × JsonNode)) : Within text.length Prod.snd
            (jsonParseObject turns members token rest) :=
      (object members token rest).mono (next_shorter taken).1
    refine ⟨fun token text => ?_, fun elements token text => ?_, fun members token text => ?_⟩
    · unfold parseNode
      split_ifs
      · exact (within_next text).bind fun scanned taken => object_next taken []
      · exact (within_next text).bind fun scanned taken => array_next taken []
      · exact within_jsonParseValue token text
    · unfold jsonParseArray
      split_ifs
      · exact Nat.le_refl text.length
      · exact (within_next text).bind fun scanned taken => array_next taken elements
      · refine (node token text).bind ?_
        rintro ⟨element, left⟩ first
        have less : left.length ≤ text.length := by simpa [first, Within] using node token text
        refine ((within_next left).mono less).bind ?_
        rintro ⟨after, rest⟩ taken
        dsimp only
        split_ifs
        · exact (array_next taken _).mono less
        · exact (next_shorter taken).1.trans less
    · unfold jsonParseObject
      split_ifs
      · exact Nat.le_refl text.length
      · exact (within_next text).bind fun scanned taken => object_next taken members
      · split
        · refine (within_next text).bind ?_
          rintro ⟨colon, behind⟩ begun
          have start := (next_shorter begun).1
          dsimp only
          split_ifs
          · refine ((within_next behind).mono start).bind ?_
            rintro ⟨token, left⟩ started
            have less := ((next_shorter started).1).trans start
            refine ((node token left).mono less).bind ?_
            rintro ⟨member, more⟩ first
            have less : more.length ≤ text.length := by
              have within := (node token left).mono less
              rwa [first] at within
            refine ((within_next more).mono less).bind ?_
            rintro ⟨after, rest⟩ taken
            dsimp only
            split_ifs
            · exact (object_next taken _).mono less
            · exact (next_shorter taken).1.trans less
          · exact start
        · exact Nat.le_refl text.length

theorem parseNode_shorter {turns : ℕ} {token : Token} {text rest : Bytes} {node : JsonNode}
    (parsed : parseNode turns token text = .ok (node, rest)) : rest.length ≤ text.length := by
  have within := (parse_within turns).1 token text
  rwa [parsed] at within

theorem jsonParseArray_eof (turns : ℕ) (elements : List JsonNode) (text : Bytes) :
    jsonParseArray (turns + 2) elements .eof text = .error (.unexpected text) := rfl

theorem jsonParseObject_eof (turns : ℕ) (members : List (Bytes × JsonNode)) (text : Bytes) :
    jsonParseObject (turns + 1) members .eof text = .error (.unexpected text) := rfl

/-- **So many turns are enough.** -/
theorem parse_enough (turns : ℕ) :
    (∀ token (text : Bytes), 2 * text.length + 3 ≤ turns → Settled (parseNode turns token text)) ∧
    (∀ elements token (text : Bytes), 2 * text.length + 4 ≤ turns →
    Settled (jsonParseArray turns elements token text)) ∧
    (∀ members token (text : Bytes), 2 * text.length + 4 ≤ turns →
    Settled (jsonParseObject turns members token text)) := by
  induction turns with
  | zero =>
    exact ⟨fun _ _ enough => absurd enough (by omega), fun _ _ _ enough => absurd enough (by omega),
      fun _ _ _ enough => absurd enough (by omega)⟩
  | succ turns ih =>
    obtain ⟨node, array, object⟩ := ih
    -- Behind a token there is less text, unless the token is the end, which the loops stop at.
    have array_next {text rest : Bytes} {token : Token} (taken : next text = .ok (token, rest))
        (enough : 2 * text.length + 2 ≤ turns) (elements : List JsonNode) :
        Settled (jsonParseArray turns elements token rest) := by
      by_cases done : token = .eof
      · obtain ⟨more, rfl⟩ := Nat.exists_eq_add_of_le' (show 2 ≤ turns by omega)
        rw [done, jsonParseArray_eof]
        simp [Settled]
      · have less := (next_shorter taken).2 done
        exact array _ _ _ (by omega)
    have object_next {text rest : Bytes} {token : Token} (taken : next text = .ok (token, rest))
        (enough : 2 * text.length + 2 ≤ turns) (members : List (Bytes × JsonNode)) :
        Settled (jsonParseObject turns members token rest) := by
      by_cases done : token = .eof
      · obtain ⟨more, rfl⟩ := Nat.exists_eq_add_of_le' (show 1 ≤ turns by omega)
        rw [done, jsonParseObject_eof]
        simp [Settled]
      · have less := (next_shorter taken).2 done
        exact object _ _ _ (by omega)
    refine ⟨fun token text enough => ?_, fun elements token text enough => ?_,
      fun members token text enough => ?_⟩
    · unfold parseNode
      split_ifs
      · exact (settled_next text).bind fun scanned taken => object_next taken (by omega) []
      · exact (settled_next text).bind fun scanned taken => array_next taken (by omega) []
      · exact settled_jsonParseValue token text
    · unfold jsonParseArray
      split_ifs
      · simp [Settled]
      · exact (settled_next text).bind fun scanned taken => array_next taken (by omega) elements
      · refine (node token text (by omega)).bind ?_
        rintro ⟨element, left⟩ first
        have less := parseNode_shorter first
        refine (settled_next left).bind ?_
        rintro ⟨after, rest⟩ taken
        dsimp only
        split_ifs
        · exact array_next taken (by omega) _
        · simp [Settled]
    · unfold jsonParseObject
      split_ifs
      · simp [Settled]
      · exact (settled_next text).bind fun scanned taken => object_next taken (by omega) members
      · split
        · refine (settled_next text).bind ?_
          rintro ⟨colon, behind⟩ begun
          dsimp only
          split_ifs
          · refine (settled_next behind).bind ?_
            rintro ⟨first, left⟩ started
            have less := ((next_shorter started).1).trans (next_shorter begun).1
            refine (node first left (by omega)).bind ?_
            rintro ⟨member, left⟩ parsed
            have less := (parseNode_shorter parsed).trans less
            refine (settled_next left).bind ?_
            rintro ⟨after, rest⟩ taken
            dsimp only
            split_ifs
            · exact object_next taken (by omega) _
            · simp [Settled]
          · simp [Settled]
        · simp [Settled]

theorem parseNode_enough {turns : ℕ} {token : Token} {text rest : Bytes} {node : JsonNode}
    (parsed : parseNode turns token text = .ok (node, rest)) {enough : ℕ}
    (bound : 2 * text.length + 3 ≤ enough) : parseNode enough token text = .ok (node, rest) := by
  have settled := (parse_enough enough).1 token text bound
  rcases Nat.le_total turns enough with le | le
  · rw [parseNode_more le (by rw [parsed]; simp [Settled]), parsed]
  · rw [← parseNode_more le settled, parsed]

end Enough

section Load

theorem settled_error {α β : Type} {stop : Stop}
    (settled : Settled (Except.error stop : Except Stop α)) :
    Settled (Except.error stop : Except Stop β) := fun same => settled (by cases same; rfl)

theorem within_error {α β : Type} {stop : Stop} {bound : ℕ} {left : α → Bytes} {other : β → Bytes}
    (within : Within bound left (Except.error stop : Except Stop α)) :
    Within bound other (Except.error stop : Except Stop β) := by
  cases stop <;> exact within

theorem within_parseTop (node : JsonNode) (text : Bytes) :
    Within text.length id (parseTop node text).2 := by
  have within := within_next text
  unfold parseTop
  cases taken : next text with
  | error stop => exact within_error (taken ▸ within)
  | ok scanned => exact (next_shorter taken).1

theorem within_parseContainer (turns : ℕ) (token : Token) (text : Bytes) :
    Within text.length id (parseContainer turns token text).2 := by
  have within := (parse_within turns).1 token text
  unfold parseContainer
  cases parsed : parseNode turns token text with
  | error stop => exact within_error (parsed ▸ within)
  | ok scanned => exact parseNode_shorter parsed

theorem within_parseTopToken (turns : ℕ) (root : Root) (token : Token) (text : Bytes) :
    Within text.length id (parseTopToken turns root token text).2 := by
  have same : text.length ≤ text.length := le_rfl
  unfold parseTopToken
  split
  · exact within_parseContainer _ _ _
  · exact within_parseContainer _ _ _
  · exact same
  · exact same
  · exact same
  · split
    · rename_i taken
      exact within_error (taken ▸ within_next text)
    · rename_i taken
      split
      · exact (within_parseTop _ _).mono (next_shorter taken).1
      · exact same
  · exact within_parseTop _ text
  · split
    · exact within_parseTop _ text
    · exact same

theorem within_takeAssignment (text : Bytes) : Within text.length id (takeAssignment text) := by
  refine (within_next text).bind ?_
  rintro ⟨name, behind⟩ named
  have less := (next_shorter named).1
  dsimp only
  split
  · refine ((within_next behind).mono less).bind ?_
    rintro ⟨mark, rest⟩ marked
    have shorter := (next_shorter marked).1.trans less
    dsimp only
    split_ifs <;> exact shorter
  · exact less

theorem within_takeSemicolon {bound : ℕ} {result : Except Stop Bytes}
    (within : Within bound id result) : Within bound id (takeSemicolon result) := by
  have behind {left : Bytes} (less : left.length ≤ bound) {other : Except Stop Bytes}
      (kept : Within bound id other) : Within bound id
          (next left >>= fun scanned => if scanned.1 = .char 59 then .ok scanned.2 else other) := by
    refine ((within_next left).mono less).bind ?_
    rintro ⟨token, rest⟩ taken
    dsimp only
    split_ifs
    · exact (next_shorter taken).1.trans less
    · exact kept
  match result, within with
  | .ok left, within => exact behind within within
  | .error (.unexpected left), within => exact behind within within
  | .error .assertion, _ => trivial
  | .error .turns, _ => trivial

/-- What a statement leaves is behind its first token. -/
theorem within_statement {turns : ℕ} {root : Root} {text rest : Bytes} {token : Token}
    (taken : next text = .ok (token, rest)) :
    Within rest.length id (jsonParseStatement turns root text).2 := by
  induction turns generalizing root text rest token with
  | zero => trivial
  | succ turns ih =>
    rw [jsonParseStatement, taken]
    dsimp only
    split_ifs
    · have assigned := within_takeAssignment rest
      split
      · rename_i stopped
        exact within_error (stopped ▸ assigned)
      · rename_i behind same
        rw [same] at assigned
        refine within_takeSemicolon ?_
        cases first : next behind with
        | ok scanned => exact (ih first).mono ((next_shorter first).1.trans assigned)
        | error stop =>
          have within := (within_next behind).mono assigned
          cases turns with
          | zero => trivial
          | succ turns =>
            rw [jsonParseStatement, first]
            exact within_error (first ▸ within)
    · exact within_parseTopToken turns root token rest

theorem settled_parseTop (node : JsonNode) (text : Bytes) : Settled (parseTop node text).2 := by
  have settled := settled_next text
  unfold parseTop
  cases taken : next text with
  | error stop => exact settled_error (taken ▸ settled)
  | ok _ => simp [Settled, Except.map]

theorem settled_parseContainer {turns : ℕ} {text : Bytes} (enough : 2 * text.length + 3 ≤ turns)
    (token : Token) : Settled (parseContainer turns token text).2 := by
  have settled := (parse_enough turns).1 token text enough
  unfold parseContainer
  cases parsed : parseNode turns token text with
  | error stop => exact settled_error (parsed ▸ settled)
  | ok _ => simp [Settled]

theorem settled_parseTopToken {turns : ℕ} {text : Bytes} (enough : 2 * text.length + 3 ≤ turns)
    (root : Root) (token : Token) : Settled (parseTopToken turns root token text).2 := by
  unfold parseTopToken
  split
  · exact settled_parseContainer enough _
  · exact settled_parseContainer enough _
  · simp [Settled]
  · simp [Settled]
  · simp [Settled]
  · split
    · rename_i taken
      exact settled_error (taken ▸ settled_next text)
    · split
      · exact settled_parseTop _ _
      · simp [Settled]
  · exact settled_parseTop _ _
  · split
    · exact settled_parseTop _ _
    · simp [Settled]

theorem settled_takeAssignment (text : Bytes) : Settled (takeAssignment text) := by
  refine (settled_next text).bind fun scanned _ => ?_
  dsimp only
  split
  · refine (settled_next _).bind fun scanned _ => ?_
    split_ifs <;> simp [Settled]
  · simp [Settled]

theorem settled_takeSemicolon {result : Except Stop Bytes} (settled : Settled result) :
    Settled (takeSemicolon result) := by
  unfold takeSemicolon
  split
  · refine (settled_next _).bind fun scanned _ => ?_
    dsimp only
    split_ifs <;> simp [Settled]
  · refine (settled_next _).bind fun scanned _ => ?_
    dsimp only
    split_ifs <;> simp [Settled]
  · exact settled

theorem settled_statement {turns : ℕ} {text : Bytes} (enough : 2 * text.length + 2 ≤ turns)
    (root : Root) : Settled (jsonParseStatement turns root text).2 := by
  induction turns generalizing root text with
  | zero => exact absurd enough (by omega)
  | succ turns ih =>
    rw [jsonParseStatement]
    cases taken : next text with
    | error stop => exact settled_error (taken ▸ settled_next text)
    | ok scanned =>
      obtain ⟨token, rest⟩ := scanned
      by_cases done : token = .eof
      · rw [done]
        simp [Settled, parseTopToken, numberNode]
      · have less := (next_shorter taken).2 done
        dsimp only
        split_ifs
        · split
          · rename_i stopped
            exact settled_error (stopped ▸ settled_takeAssignment rest)
          · rename_i behind same
            have within : behind.length ≤ rest.length := by
              have within := within_takeAssignment rest
              rwa [same] at within
            exact settled_takeSemicolon (ih (by omega) root)
        · exact settled_parseTopToken (by omega) root token

theorem settled_jsonParserLoad (data : Bytes) : Settled (jsonParserLoad data).2 := by
  have all : ∀ turns root (text : Bytes), text.length < turns →
      Settled (loadLoop turns root text).2 := by
    intro turns
    induction turns with
    | zero => exact fun _ _ enough => absurd enough (Nat.not_lt_zero _)
    | succ turns ih =>
      intro root text enough
      unfold loadLoop
      split
      · rename_i taken
        exact settled_error (taken ▸ settled_next text)
      · simp [Settled]
      · rename_i scanned going taken
        obtain ⟨token, rest⟩ := scanned
        have stated := settled_statement (le_refl (2 * text.length + 2)) root
        have within := @within_statement (2 * text.length + 2) root _ _ _ taken
        have less := (next_shorter taken).2 fun same => going rest (by rw [same])
        split
        · rename_i next_root left same
          rw [same] at within
          have left_less : left.length ≤ rest.length := within
          exact ih next_root left (by omega)
        · rename_i same
          rw [same] at stated
          exact settled_error stated
  exact all _ _ _ (Nat.lt_succ_self _)

end Load

end Gebr.Json
