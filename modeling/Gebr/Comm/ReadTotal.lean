/-
**The read loop of a protocol socket: what a pass works on, and whether it comes to anything.**

A pass of the loop hands what is left of the data to the parser of the HTTP messages or to the
decoder of the old ones. Here the passes say when they work on what is missing: `none`.

* `readTurnChecked`: one pass, with the second token of the first line and the length of a content
  looked at before they are used.
* `Pending`, `readTurnChecked_eq`: what holds of the message that is being parsed, and why the token
  and the length are always there.
* `EndsUnread`: the passes that end a message without a byte.
* `passOk_iff`: the passes that are as they should be, by the state before them.
* `readsWell_iff`: the loop over any chunks.
-/

import Gebr.Comm.ProtocolSocket

namespace Gebr.Comm

open Gebr.Lib.CString

section Model

/-- `gebr_comm_socket_read_string`: the C string at the start of what was received. -/
def gebrCommSocketReadString (buffer : Bytes) : Bytes := buffer.takeWhile (· ≠ 0)

/-- The handlers of the signals. The message that is being parsed is private to the socket. -/
structure Handlers (ω : Type) where
  emit : Handler ω
  kept : ∀ signal self, (emit signal self).1.incomingMsg = self.1.incomingMsg

/-- `header_end`. -/
def headerEnd (fullData : Bytes) : Option ℕ :=
  (strstr [10, 10] fullData).or (strstr [13, 10, 13, 10] fullData)

/-- `split[1]` of the first line, which `gebr_comm_http_fieldfy` takes. -/
def TokenThere (msg : GebrCommHttpMsg) : Prop :=
  msg.type = .unknown ∨ (gStrsplit 32 0 (msg.raw.takeWhile (· ≠ 10)))[1]? ≠ none

instance (msg : GebrCommHttpMsg) : Decidable (TokenThere msg) := inferInstanceAs (Decidable (_ ∨ _))

/-- What the turn of the loop on the headers takes is there. -/
def HeadersFine (msg : GebrCommHttpMsg) (data : Bytes) : Prop :=
  ∀ found ∈ headerEnd (msg.raw ++ data),
    TokenThere { msg with raw := msg.raw ++ data.take (found + 2 - msg.raw.length) }

instance (msg : GebrCommHttpMsg) (data : Bytes) : Decidable (HeadersFine msg data) :=
  inferInstanceAs (Decidable (∀ found ∈ headerEnd (msg.raw ++ data), _))

/-- What the turn of the loop on the content takes, if there is one, is there: without a length the
loop of the parser turns for ever. -/
def ContentFine (msg : GebrCommHttpMsg) (data : Bytes) : Prop :=
  msg.parsed = false ∧ data ≠ [] → headersLookup contentLength msg.headers ≠ none

instance (msg : GebrCommHttpMsg) (data : Bytes) : Decidable (ContentFine msg data) :=
  inferInstanceAs (Decidable (_ → _))

/-- What `parseLoop` takes is there. -/
def LoopFine (msg : GebrCommHttpMsg) (data : Bytes) : Prop :=
  if msg.parsedHeaders then ContentFine msg data
  else HeadersFine msg data ∧ ContentFine (parseHeaders msg data).1 (parseHeaders msg data).2

instance (msg : GebrCommHttpMsg) (data : Bytes) : Decidable (LoopFine msg data) :=
  inferInstanceAs (Decidable (if msg.parsedHeaders then ContentFine msg data
    else HeadersFine msg data ∧ ContentFine (parseHeaders msg data).1 (parseHeaders msg data).2))

/-- `gebr_comm_http_msg_new_parsing`, with a look at what its loop takes. -/
def newParsingChecked (partialMsg : Option GebrCommHttpMsg) (data : Bytes) : Parsing :=
  parsingBy (fun msg =>
    if LoopFine msg data then .msg (parseLoop msg data).1 (parseLoop msg data).2 else .crash)
    partialMsg data

variable {ω : Type}

/-- One pass of the loop of `gebr_comm_protocol_socket_read`, with this look. -/
def readTurnChecked (emit : Handler ω) (self : GebrCommProtocolSocket × ω) (data : Bytes) :
    Outcome ω :=
  turnBy (afterParsing emit self data (newParsingChecked self.1.incomingMsg data)) emit self data

/-- What one pass has to come to: nothing missing, and a byte used up (a pass that waits for more
has used up all of them) or the data rejected. -/
def PassOk (data : Bytes) : Outcome ω → Prop
  | none => False
  | some (_, rest, ret) => ret = true → rest.length < data.length

/-- **The reads**: the loop over what each read gave comes to its end, and every pass it makes is as
it should be. A derivation is a run that stops. -/
inductive ReadsWell (emit : Handler ω) : GebrCommProtocolSocket × ω → List Bytes → Prop where
  | done (self) : ReadsWell emit self []
  | empty {self reads} : ReadsWell emit self reads → ReadsWell emit self ([] :: reads)
  | pass {self next : GebrCommProtocolSocket × ω} {data rest : Bytes} {ret : Bool}
      {reads : List Bytes} : data ≠ [] → PassOk data (readTurnChecked emit self data) →
      readTurnChecked emit self data = some (next, rest, ret) →
      ReadsWell emit next (if ret then rest :: reads else reads) →
      ReadsWell emit self (data :: reads)

/-- `Made emit self reads at data`: of the reads, from `self`, a pass over `data` is made in the
state `at`. -/
inductive Made (emit : Handler ω) :
    GebrCommProtocolSocket × ω → List Bytes → GebrCommProtocolSocket × ω → Bytes → Prop where
  | first {self} {data : Bytes} {reads} : data ≠ [] → Made emit self (data :: reads) self data
  | empty {self reads state data} :
      Made emit self reads state data → Made emit self ([] :: reads) state data
  | later {self next state : GebrCommProtocolSocket × ω} {data rest later : Bytes} {ret : Bool}
      {reads : List Bytes} :
      data ≠ [] → readTurnChecked emit self data = some (next, rest, ret) →
      Made emit next (if ret then rest :: reads else reads) state later →
      Made emit self (data :: reads) state later

/-- The header of the message has been read up to its end, as it is counted. -/
def HeaderRead (msg : GebrCommHttpMsg) (data : Bytes) : Prop :=
  msg.parsedHeaders = true ∨ ∃ found ∈ headerEnd (msg.raw ++ data), found + 2 ≤ msg.raw.length

/-- The header lines that have been read. -/
def headerTable (msg : GebrCommHttpMsg) : Headers :=
  if msg.parsedHeaders then msg.headers else (gebrCommHttpFieldfy msg).headers

/-- The message is at its end before the data is looked at. -/
def EndsUnread (msg : GebrCommHttpMsg) (data : Bytes) : Prop :=
  HeaderRead msg data ∧
    ∀ tmp ∈ headersLookup contentLength (headerTable msg), toSize (strtol tmp).1 ≤ msg.content.length

/-- What the parser can work on: no `POST` or `DELETE` as a new message, and no message that is at
its end already. -/
def HttpFine (partialMsg : Option GebrCommHttpMsg) (data : Bytes) : Prop :=
  match partialMsg with
  | none => ¬ ascii "POST " <+: data ∧ ¬ ascii "DELETE " <+: data
  | some msg => ¬ EndsUnread msg data

/-- What the state before a pass has to be, unless the data belongs to an old message. -/
def PassFine (self : GebrCommProtocolSocket × ω) (data : Bytes) : Prop :=
  self.1.protocol.message.hash = 0 → HttpFine self.1.incomingMsg data

end Model

section Tokens

variable {s t : Bytes}

/-- A text that starts with a word and a blank. -/
def Started (s : Bytes) : Prop := ∃ word, (∀ b ∈ [32, 10, 13], b ∉ word) ∧ word ++ [32] <+: s

theorem Started.append (started : Started s) (t : Bytes) : Started (s ++ t) := by
  obtain ⟨word, clean, begins⟩ := started
  exact ⟨word, clean, begins.trans (List.prefix_append s t)⟩

/-- A text is not found before a byte it starts with. -/
theorem le_of_strstr {b : UInt8} {sub front : Bytes} (clean : b ∉ front) {found : ℕ}
    (begins : front <+: s) (search : strstr (b :: sub) s = some found) : front.length ≤ found := by
  induction front generalizing s found with
  | nil => exact Nat.zero_le _
  | cons c front ih =>
    obtain ⟨rest, rfl⟩ := begins
    have other : b ≠ c := fun same => clean (same ▸ List.mem_cons_self)
    have away : (b :: sub).isPrefixOf (c :: (front ++ rest)) = false := by
      rw [Bool.eq_false_iff, ne_eq, List.isPrefixOf_iff_prefix, List.cons_prefix_cons]
      exact fun begins => other begins.1
    rw [List.cons_append, strstr, away, if_neg Bool.false_ne_true] at search
    obtain ⟨before, inner, rfl⟩ := Option.map_eq_some_iff.1 search
    have le := ih (fun member => clean (List.mem_cons_of_mem c member)) (List.prefix_append front rest)
      inner
    rw [List.length_cons]
    omega

/-- **The header ends after the first word**, so what is kept up to its end starts with it too. -/
theorem Started.take (started : Started s) {found n : ℕ} (search : headerEnd s = some found)
    (enough : found ≤ n) : Started (s.take n) := by
  obtain ⟨word, clean, begins⟩ := started
  have lineFeed : (10 : UInt8) ∉ word ++ [32] := by
    rw [List.mem_append, List.mem_singleton, not_or]
    exact ⟨clean 10 (by decide), by decide⟩
  have returned : (13 : UInt8) ∉ word ++ [32] := by
    rw [List.mem_append, List.mem_singleton, not_or]
    exact ⟨clean 13 (by decide), by decide⟩
  have after : (word ++ [32]).length ≤ found := by
    rw [headerEnd, Option.or_eq_some_iff] at search
    rcases search with search | ⟨-, search⟩
    · exact le_of_strstr lineFeed begins search
    · exact le_of_strstr returned begins search
  exact ⟨word, clean, List.prefix_take_iff.2 ⟨begins, after.trans enough⟩⟩

theorem splitTokens_ne_nil (sep : UInt8) (cuts : ℕ) (s : Bytes) : splitTokens sep cuts s ≠ [] := by
  cases cuts with
  | zero => exact List.cons_ne_nil _ _
  | succ cuts =>
    rw [splitTokens]
    split
    · exact List.cons_ne_nil _ _
    · exact List.cons_ne_nil _ _

/-- **The first line has a second token.** -/
theorem Started.second (started : Started s) :
    ∃ second, (gStrsplit 32 0 (s.takeWhile (· ≠ 10)))[1]? = some second := by
  obtain ⟨word, clean, rest, rfl⟩ := started
  have lineFeed : ∀ b ∈ word ++ [32], decide (b ≠ 10) = true := by
    intro b member
    rw [List.mem_append, List.mem_singleton] at member
    apply decide_eq_true
    rcases member with member | rfl
    · exact fun same => clean 10 (by decide) (same ▸ member)
    · decide
  rw [List.takeWhile_append_of_pos lineFeed, List.append_assoc, List.singleton_append, gStrsplit,
    if_neg (by simp), if_pos rfl]
  generalize rest.takeWhile (fun b => decide (b ≠ 10)) = line'
  have long : (word ++ 32 :: line').length = (word.length + line'.length) + 1 := by
    rw [List.length_append, List.length_cons]
    omega
  rw [long, splitTokens_cons (clean 32 (by decide))]
  obtain ⟨second, others, tokens⟩ := List.exists_cons_of_ne_nil
    (splitTokens_ne_nil 32 (word.length + line'.length) line')
  exact ⟨second, by rw [tokens]; rfl⟩

/-- `gebr_comm_http_fieldfy` finds the token it takes. -/
theorem tokenThere {msg : GebrCommHttpMsg} (started : Started msg.raw) : TokenThere msg := by
  obtain ⟨second, token⟩ := started.second
  right
  rw [token]
  exact Option.some_ne_none second

end Tokens

section Parser

variable {msg : GebrCommHttpMsg} {data : Bytes}

@[simp] theorem fieldfy_raw (msg : GebrCommHttpMsg) : (gebrCommHttpFieldfy msg).raw = msg.raw := by
  unfold gebrCommHttpFieldfy
  cases msg.type <;> simp only <;> split <;> rfl

@[simp] theorem fieldfy_content (msg : GebrCommHttpMsg) :
    (gebrCommHttpFieldfy msg).content = msg.content := by
  unfold gebrCommHttpFieldfy
  cases msg.type <;> simp only <;> split <;> rfl

@[simp] theorem fieldfy_parsed (msg : GebrCommHttpMsg) :
    (gebrCommHttpFieldfy msg).parsed = msg.parsed := by
  unfold gebrCommHttpFieldfy
  cases msg.type <;> simp only <;> split <;> rfl

@[simp] theorem fieldfy_parsedHeaders (msg : GebrCommHttpMsg) :
    (gebrCommHttpFieldfy msg).parsedHeaders = msg.parsedHeaders := by
  unfold gebrCommHttpFieldfy
  cases msg.type <;> simp only <;> split <;> rfl

/-- The header lines are those of the bytes that were kept. -/
theorem fieldfy_headers (msg : GebrCommHttpMsg) :
    (gebrCommHttpFieldfy msg).headers =
      match msg.raw.dropWhile (· ≠ 10) with
      | [] => msg.headers
      | _ :: headers => fillWithHeaders headers msg.headers := by
  unfold gebrCommHttpFieldfy
  cases msg.type
  all_goals
    simp only
    generalize msg.raw.dropWhile (fun b => decide (b ≠ 10)) = tail
    cases tail <;> rfl

/-- A message that is being parsed, with data to come: it starts with a method and a blank, and once
its header is parsed the length of its content is known. -/
structure Pending (msg : GebrCommHttpMsg) (data : Bytes) : Prop where
  unparsed : msg.parsed = false
  started : Started (msg.raw ++ data)
  lengthKnown : msg.parsedHeaders = true → (headersLookup contentLength msg.headers).isSome = true

theorem Pending.append (pending : Pending msg []) (data : Bytes) : Pending msg data :=
  ⟨pending.unparsed, (pending.started.append data).imp fun word fact => by simpa using fact,
    pending.lengthKnown⟩

/-- The header is found at once, or takes the data. -/
inductive HeaderTurn (msg : GebrCommHttpMsg) (data : Bytes) : GebrCommHttpMsg × Bytes → Prop where
  | waits : headerEnd (msg.raw ++ data) = none →
      HeaderTurn msg data ({ msg with raw := msg.raw ++ data }, [])
  | found {found : ℕ} {kept : Bytes} {next : GebrCommHttpMsg} :
      headerEnd (msg.raw ++ data) = some found →
      kept = msg.raw ++ data.take (found + 2 - msg.raw.length) →
      next = gebrCommHttpFieldfy { msg with parsedHeaders := true, raw := kept } →
      Started kept →
      HeaderTurn msg data
        ({ next with
          parsed := if headersLookup contentLength next.headers = none then true else next.parsed },
          data.drop (found + 2 - msg.raw.length))

/-- What is kept of the header starts as the message does. -/
theorem started_kept (pending : Pending msg data) {found : ℕ}
    (search : headerEnd (msg.raw ++ data) = some found) :
    Started (msg.raw ++ data.take (found + 2 - msg.raw.length)) := by
  have whole : msg.raw ++ data.take (found + 2 - msg.raw.length) =
      (msg.raw ++ data).take (max (found + 2) msg.raw.length) := by
    rw [List.take_append, List.take_of_length_le (le_max_right _ _)]
    congr 2
    omega
  rw [whole]
  exact pending.started.take search (le_max_of_le_left (Nat.le_add_right found 2))

/-- **The turn on the headers finds its token.** -/
theorem headersFine (pending : Pending msg data) : HeadersFine msg data :=
  fun _ search => tokenThere (started_kept pending search)

/-- What the turn on the headers comes to. -/
theorem headerTurn (pending : Pending msg data) : HeaderTurn msg data (parseHeaders msg data) := by
  unfold parseHeaders
  simp only
  cases search : headerEnd (msg.raw ++ data) with
  | none =>
    have none := search
    rw [headerEnd] at none
    rw [none]
    exact .waits search
  | some found =>
    have turn := HeaderTurn.found search rfl rfl (started_kept pending search)
    rw [headerEnd] at search
    rw [search]
    exact turn

/-- **The turn on the content finds its length.** -/
theorem contentFine (pending : Pending msg data) (read : msg.parsedHeaders = true) :
    ContentFine msg data :=
  fun _ => Option.isSome_iff_ne_none.1 (pending.lengthKnown read)

/-- The turn on the content uses up a byte unless the content is complete. -/
theorem parseContent_pending (pending : Pending msg data) (read : msg.parsedHeaders = true)
    (some_byte : data ≠ []) :
    ((parseContent msg data).1.parsed = false → Pending (parseContent msg data).1 []) ∧
      ((parseContent msg data).2.length < data.length ↔
        ∀ tmp ∈ headersLookup contentLength msg.headers, msg.content.length < toSize
        (strtol tmp).1) := by
  obtain ⟨tmp, length⟩ := Option.isSome_iff_exists.1 (pending.lengthKnown read)
  have positive := List.length_pos_iff.2 some_byte
  have size : (∀ tmp ∈ headersLookup contentLength msg.headers,
      msg.content.length < toSize (strtol tmp).1) ↔ msg.content.length < toSize (strtol tmp).1 := by
    simp [length]
  rw [size]
  unfold parseContent
  simp only [length]
  split
  · rename_i enough
    refine ⟨fun unparsed => Bool.noConfusion unparsed, ?_⟩
    rw [List.length_drop]
    omega
  · rename_i more
    refine ⟨fun _ => ⟨pending.unparsed, ?_, pending.lengthKnown⟩, ?_⟩
    · exact pending.started.append []
    · rw [List.length_nil]
      exact iff_of_true positive (by omega)

/-- Where the end of the header is found, whether it was there before the data is how it is
counted. -/
theorem headerRead_iff (unread : msg.parsedHeaders = false) {found : ℕ}
    (search : headerEnd (msg.raw ++ data) = some found) :
    HeaderRead msg data ↔ found + 2 ≤ msg.raw.length := by
  unfold HeaderRead
  simp [unread, search]

/-- **A call of the parser on a message in progress**: nothing is missing, the message it leaves is
in progress if it is not parsed, and a byte is used up unless the message is at its end already. -/
theorem parseLoop_pending (pending : Pending msg data) (some_byte : data ≠ []) :
    LoopFine msg data ∧
      ((parseLoop msg data).1.parsed = false → Pending (parseLoop msg data).1 []) ∧
      ((parseLoop msg data).2.length < data.length ↔ ¬ EndsUnread msg data) := by
  have positive := List.length_pos_iff.2 some_byte
  unfold LoopFine parseLoop
  cases read : msg.parsedHeaders with
  | true =>
    obtain ⟨goesOn, shorter⟩ := parseContent_pending pending read some_byte
    simp only [if_true, pending.unparsed, true_and, if_pos some_byte]
    refine ⟨contentFine pending read, goesOn, shorter.trans ?_⟩
    unfold EndsUnread HeaderRead headerTable
    obtain ⟨tmp, length⟩ := Option.isSome_iff_exists.1 (pending.lengthKnown read)
    simp [read, length]
  | false =>
    have turn := headerTurn pending
    simp only [Bool.false_eq_true, if_false, headersFine pending, true_and]
    generalize parseHeaders msg data = outcome at turn
    cases turn with
    | waits search =>
      simp only [ne_eq, not_true_eq_false, and_false, if_false]
      refine ⟨fun turns => absurd rfl turns.2, fun _ =>
        ⟨pending.unparsed, pending.started.append [], ?_⟩, ?_⟩
      · exact fun known => absurd (read.symm.trans known) Bool.false_ne_true
      · refine iff_of_true positive fun ends => ?_
        rcases ends.1 with known | ⟨found, member, -⟩
        · exact absurd (read.symm.trans known) Bool.false_ne_true
        · rw [search] at member
          exact nomatch member
    | @found found kept next search keptEq nextEq started =>
      have unparsed : next.parsed = false := by rw [nextEq, fieldfy_parsed]; exact pending.unparsed
      have readNext : next.parsedHeaders = true := by rw [nextEq, fieldfy_parsedHeaders]
      have ends : EndsUnread msg data ↔ found + 2 ≤ msg.raw.length ∧
          ∀ tmp ∈ headersLookup contentLength next.headers,
            toSize (strtol tmp).1 ≤ next.content.length := by
        rw [EndsUnread, headerRead_iff read search]
        refine and_congr_right fun before => ?_
        have table : headerTable msg = next.headers := by
          unfold headerTable
          rw [nextEq, keptEq, Nat.sub_eq_zero_of_le before, fieldfy_headers, fieldfy_headers]
          simp [read]
        rw [table, nextEq, fieldfy_content]
      have left : (data.drop (found + 2 - msg.raw.length)).length < data.length ↔
          ¬ found + 2 ≤ msg.raw.length := by
        rw [List.length_drop]
        omega
      cases length : headersLookup contentLength next.headers with
      | none =>
        simp only [if_true, Bool.true_eq_false, false_and, if_false]
        refine ⟨fun turns => Bool.noConfusion turns.1, fun never => never.elim,
          left.trans (not_congr ?_)⟩
        rw [ends, length]
        simp
      | some tmp =>
        have whole : ({ next with parsed := if some tmp = none then true else next.parsed } :
            GebrCommHttpMsg) = next := by
          rw [if_neg (Option.some_ne_none tmp)]
        have startedNext : Started next.raw := by rw [nextEq, fieldfy_raw]; exact started
        have goesOn : ∀ rest, Pending next rest := fun rest =>
          ⟨unparsed, startedNext.append rest, fun _ => length ▸ rfl⟩
        rw [whole]
        simp only [unparsed, true_and]
        by_cases used : data.drop (found + 2 - msg.raw.length) = []
        · rw [used, if_neg (not_not_intro rfl)]
          refine ⟨fun turns => absurd rfl turns.2, fun _ => goesOn [],
            iff_of_true positive fun before => ?_⟩
          rw [used] at left
          exact left.1 positive (ends.1 before).1
        · rw [if_pos used]
          obtain ⟨after, shorter⟩ := parseContent_pending (goesOn _) readNext used
          refine ⟨contentFine (goesOn _) readNext, after, ?_⟩
          by_cases before : found + 2 ≤ msg.raw.length
          · rw [Nat.sub_eq_zero_of_le before, List.drop_zero] at shorter ⊢
            rw [shorter, ends, length]
            simp [before]
          · have fewer := left.2 before
            have bound := (parseContent_spec next (data.drop (found + 2 - msg.raw.length))).2
            exact iff_of_true (by omega) fun end' => before (ends.1 end').1

end Parser

section Passes

variable {ω : Type} {self next : GebrCommProtocolSocket × ω} {data rest : Bytes}

/-- A new message of a type, for data that starts with a method and a blank, or with the version. -/
theorem pending_new {first : Bytes} (begins : first.isPrefixOf data = true)
    (type : GebrCommHttpRequestType) (method : GebrCommHttpRequestMethod)
    (known : ∃ word, first = word ++ [32] ∧ ∀ b ∈ [32, 10, 13], b ∉ word) :
    Pending (gebrCommHttpMsgNew type method) data := by
  obtain ⟨word, rfl, clean⟩ := known
  exact ⟨rfl, ⟨word, clean, List.isPrefixOf_iff_prefix.1 begins⟩, fun read => Bool.noConfusion read⟩

theorem not_endsUnread_new (type : GebrCommHttpRequestType) (method : GebrCommHttpRequestMethod)
    (data : Bytes) : ¬ EndsUnread (gebrCommHttpMsgNew type method) data := by
  rintro ⟨read | ⟨found, -, before⟩, -⟩
  · exact Bool.noConfusion read
  · exact absurd before (by simp [gebrCommHttpMsgNew])

/-- What the socket keeps between two passes: a message in progress, if any. -/
def SocketPending (self : GebrCommProtocolSocket × ω) : Prop :=
  ∀ msg ∈ self.1.incomingMsg, Pending msg []

/-- What a call of `gebr_comm_http_msg_new_parsing` comes to on a socket with a message in progress,
or none. -/
inductive Calls (data : Bytes) : Option GebrCommHttpMsg → Prop where
  | missing : ascii "POST " <+: data ∨ ascii "DELETE " <+: data →
      newParsingChecked none data = .crash → gebrCommHttpMsgNewParsing none data = .crash →
        Calls data none
  | other : ¬ ascii "POST " <+: data ∧ ¬ ascii "DELETE " <+: data →
      newParsingChecked none data = .null → gebrCommHttpMsgNewParsing none data = .null →
        Calls data none
  | parses (partialMsg msg) : Pending msg data →
      newParsingChecked partialMsg data = .msg (parseLoop msg data).1 (parseLoop msg data).2 →
      gebrCommHttpMsgNewParsing partialMsg data = .msg (parseLoop msg data).1 (parseLoop msg data).2 →
      (match partialMsg with
        | none => (¬ ascii "POST " <+: data ∧ ¬ ascii "DELETE " <+: data) ∧ ¬ EndsUnread msg data
        | some partialMsg => partialMsg = msg) →
      Calls data partialMsg

theorem not_begins_of_begins {first other : Bytes} (begins : first.isPrefixOf data = true)
    (apart : ¬ first <+: other ∧ ¬ other <+: first) : ¬ other <+: data := by
  intro starts
  rcases List.prefix_or_prefix_of_prefix (List.isPrefixOf_iff_prefix.1 begins) starts with one | two
  · exact apart.1 one
  · exact apart.2 two

/-- **The cases of a call of the parser.** -/
theorem calls (partialMsg : Option GebrCommHttpMsg) (pending : ∀ msg ∈ partialMsg, Pending msg [])
    (some_byte : data ≠ []) : Calls data partialMsg := by
  cases partialMsg with
  | some msg =>
    have goesOn := (pending msg rfl).append data
    have fine := (parseLoop_pending goesOn some_byte).1
    refine .parses (some msg) msg goesOn ?_ ?_ rfl
    · rw [newParsingChecked, parsingBy, if_pos ⟨goesOn.unparsed, some_byte⟩, if_pos fine]
    · rw [gebrCommHttpMsgNewParsing, parsingBy, if_pos ⟨goesOn.unparsed, some_byte⟩]
  | none =>
    have starts : ∀ (first : Bytes) (type : GebrCommHttpRequestType)
        (method : GebrCommHttpRequestMethod), first.isPrefixOf data = true →
          (∃ word, first = word ++ [32] ∧ ∀ b ∈ [32, 10, 13], b ∉ word) →
        (¬ first <+: ascii "POST " ∧ ¬ ascii "POST " <+: first) →
        (¬ first <+: ascii "DELETE " ∧ ¬ ascii "DELETE " <+: first) →
        (∀ loop, parsingBy loop none data = loop (gebrCommHttpMsgNew type method)) →
            Calls data none := by
      intro first type method begins known post delete called
      have fresh := pending_new begins type method known
      have fine := (parseLoop_pending fresh some_byte).1
      exact .parses none _ fresh ((called _).trans (if_pos fine)) (called _)
        ⟨⟨not_begins_of_begins begins post, not_begins_of_begins begins delete⟩,
          not_endsUnread_new type method data⟩
    by_cases response : (ascii "HTTP/1.1 ").isPrefixOf data = true
    · refine starts _ .response .unknown response
        ⟨ascii "HTTP/1.1", by decide +kernel, by decide +kernel⟩
        (by decide +kernel) (by decide +kernel) fun loop => ?_
      simp only [parsingBy, if_pos response]
    by_cases get : (ascii "GET ").isPrefixOf data = true
    · refine starts _ .request .get get ⟨ascii "GET", by decide +kernel, by decide +kernel⟩
        (by decide +kernel) (by decide +kernel) fun loop => ?_
      simp only [parsingBy, if_neg response, if_pos get]
    by_cases put : (ascii "PUT ").isPrefixOf data = true
    · refine starts _ .request .put put ⟨ascii "PUT", by decide +kernel, by decide +kernel⟩
        (by decide +kernel) (by decide +kernel) fun loop => ?_
      simp only [parsingBy, if_neg response, if_neg get, if_pos put]
    by_cases post : (ascii "POST ").isPrefixOf data = true
    · have crash : ∀ loop, parsingBy loop none data = .crash := fun loop => by
        simp only [parsingBy, if_neg response, if_neg get, if_neg put, if_pos post]
      exact .missing (Or.inl (List.isPrefixOf_iff_prefix.1 post)) (crash _) (crash _)
    by_cases delete : (ascii "DELETE ").isPrefixOf data = true
    · have crash : ∀ loop, parsingBy loop none data = .crash := fun loop => by
        simp only [parsingBy, if_neg response, if_neg get, if_neg put, if_neg post, if_pos delete]
      exact .missing (Or.inr (List.isPrefixOf_iff_prefix.1 delete)) (crash _) (crash _)
    have null : ∀ loop, parsingBy loop none data = .null := fun loop => by
      simp only [parsingBy, if_neg response, if_neg get, if_neg put, if_neg post, if_neg delete]
    exact .other ⟨fun begins => post (List.isPrefixOf_iff_prefix.2 begins),
      fun begins => delete (List.isPrefixOf_iff_prefix.2 begins)⟩ (null _) (null _)

/-- The end of `parse_http_msg` leaves no message. -/
theorem socketPending_httpParsed (emit : Handler ω) (msg : GebrCommHttpMsg)
    (self : GebrCommProtocolSocket × ω) : SocketPending (httpParsed emit msg self) := by
  intro other member
  rw [incomingMsg_httpParsed] at member
  exact nomatch member

/-- **A pass on an HTTP message.** -/
theorem afterParsing_spec (emit : Handler ω) (pending : SocketPending self) (some_byte : data ≠ []) :
    afterParsing emit self data (newParsingChecked self.1.incomingMsg data) =
      parseHttpMsg emit self data ∧
        (PassOk data (afterParsing emit self data (newParsingChecked self.1.incomingMsg data)) ↔
      HttpFine self.1.incomingMsg data) ∧ ∀ next rest ret,
        afterParsing emit self data (newParsingChecked self.1.incomingMsg data) =
          some (next, rest, ret) → SocketPending next := by
  have called := calls self.1.incomingMsg pending some_byte
  unfold parseHttpMsg
  generalize self.1.incomingMsg = partialMsg at called
  cases called with
  | missing begins checked same =>
    rw [checked, same]
    refine ⟨rfl, iff_of_false (fun fails => fails) ?_, fun _ _ _ never => nomatch never⟩
    rw [HttpFine, not_and_or, not_not, not_not]
    exact begins
  | other away checked same =>
    rw [checked, same]
    refine ⟨rfl, iff_of_true (fun never => nomatch never) away, ?_⟩
    intro next rest ret step msg member
    obtain ⟨rfl, -⟩ := Prod.mk.inj (Option.some.inj step)
    exact nomatch member
  | parses partialMsg msg fresh checked same before =>
    rw [checked, same]
    obtain ⟨-, goesOn, shorter⟩ := parseLoop_pending fresh some_byte
    have fine : HttpFine partialMsg data ↔ ¬ EndsUnread msg data := by
      cases partialMsg with
      | none => exact iff_of_true before.1 before.2
      | some partialMsg => exact before ▸ Iff.rfl
    rw [fine, ← shorter]
    cases parsed : (parseLoop msg data).1.parsed with
    | false =>
      simp only [afterParsing, parsed, if_true]
      refine ⟨trivial, ⟨fun ok => ok rfl, fun less _ => less⟩, ?_⟩
      intro next rest ret step other member
      obtain ⟨rfl, -⟩ := Prod.mk.inj (Option.some.inj step)
      obtain rfl := Option.some.inj member
      exact goesOn parsed
    | true =>
      simp only [afterParsing, parsed, Bool.true_eq_false, if_false]
      refine ⟨trivial, ⟨fun ok => ok rfl, fun less _ => less⟩, ?_⟩
      intro next rest ret step
      obtain ⟨rfl, -⟩ := Prod.mk.inj (Option.some.inj step)
      exact socketPending_httpParsed emit _ _

/-- **A pass on an old message** uses up a byte or rejects the data, and leaves the other
message. -/
theorem parseOldMsg_spec (handlers : Handlers ω) (pending : SocketPending self)
    (some_byte : data ≠ []) : PassOk data (parseOldMsg handlers.emit self data) ∧
      ∀ next rest ret, parseOldMsg handlers.emit self data = some (next, rest, ret) →
        SocketPending next := by
  unfold parseOldMsg
  generalize received : gebrCommProtocolReceiveData self.1.protocol data = outcome
  obtain ⟨protocol, left, ret⟩ := outcome
  refine ⟨fun goesOn => ?_, ?_⟩
  · subst goesOn
    exact receiveData_length_lt some_byte received
  · intro next rest ret' step
    obtain ⟨rfl, -⟩ := Prod.mk.inj (Option.some.inj step)
    intro msg member
    apply pending msg
    split at member
    · rw [handlers.kept] at member
      exact member
    · exact member

/-- **One pass.** On a socket that keeps a message in progress or none, the pass does what it does
in the model without the checks; it is as it should be exactly if the state before it is fine; and
it leaves such a socket. -/
theorem readTurnChecked_spec (handlers : Handlers ω) (pending : SocketPending self)
    (some_byte : data ≠ []) :
    readTurnChecked handlers.emit self data = readTurn handlers.emit self data ∧
      (PassOk data (readTurnChecked handlers.emit self data) ↔ PassFine self data) ∧
      ∀ next rest ret, readTurnChecked handlers.emit self data = some (next, rest, ret) →
        SocketPending next := by
  have old := parseOldMsg_spec handlers pending some_byte
  have http := afterParsing_spec handlers.emit pending some_byte
  unfold readTurnChecked readTurn turnBy PassFine
  by_cases hash : self.1.protocol.message.hash = 0
  · rw [if_neg (not_not_intro hash), if_neg (not_not_intro hash)]
    simp only [hash, true_imp_iff]
    cases incoming : self.1.incomingMsg with
    | some msg =>
      rw [incoming] at http
      simp only [Option.isSome_some, if_true]
      exact http
    | none =>
      rw [incoming] at http
      simp only [Option.isSome_none, Bool.false_eq_true, if_false]
      split
      · exact http
      · rename_i other
        refine ⟨rfl, iff_of_true old.1 ?_, old.2⟩
        rw [List.any_eq_true, not_exists] at other
        exact ⟨fun begins => other _ ⟨by decide, List.isPrefixOf_iff_prefix.2 begins⟩,
          fun begins => other _ ⟨by decide, List.isPrefixOf_iff_prefix.2 begins⟩⟩
  · rw [if_pos hash, if_pos hash]
    exact ⟨rfl, iff_of_true old.1 fun same => absurd same hash, old.2⟩

end Passes

section Runs

variable {ω : Type} {handlers : Handlers ω} {self state : GebrCommProtocolSocket × ω}
  {reads : List Bytes} {data : Bytes}

/-- In reads that go well every pass is made in a state that is fine. -/
theorem ReadsWell.fine (well : ReadsWell handlers.emit self reads) (pending : SocketPending self)
    (made : Made handlers.emit self reads state data) : PassFine state data := by
  induction well with
  | done self => exact nomatch made
  | empty well ih =>
    cases made with
    | first some_byte => exact absurd rfl some_byte
    | empty made => exact ih pending made
    | later some_byte => exact absurd rfl some_byte
  | pass some_byte ok step well ih =>
    obtain ⟨-, fine, after⟩ := readTurnChecked_spec handlers pending some_byte
    cases made with
    | first => exact fine.1 ok
    | empty => exact absurd rfl some_byte
    | later _ step' made =>
      obtain ⟨rfl, tail⟩ := Prod.mk.inj (Option.some.inj (step.symm.trans step'))
      obtain ⟨rfl, rfl⟩ := Prod.mk.inj tail
      exact ih (after _ _ _ step) made

/-- **Where every pass is made in a state that is fine, the loop comes to its end**: the bytes of a
read get fewer, and then the reads. -/
theorem readsWell_of_fine (pending : SocketPending self)
    (fine : ∀ state data, Made handlers.emit self reads state data → PassFine state data) :
    ReadsWell handlers.emit self reads := by
  induction reads generalizing self with
  | nil => exact .done self
  | cons data reads ih =>
    induction bytes : data.length using Nat.strong_induction_on generalizing self data with
    | h n inner =>
      by_cases none : data = []
      · subst none
        exact .empty (ih pending fun state data made => fine state data (.empty made))
      · obtain ⟨-, ok, after⟩ := readTurnChecked_spec handlers pending none
        have good := ok.2 (fine self data (.first none))
        cases step : readTurnChecked handlers.emit self data with
        | none =>
          rw [step] at good
          exact good.elim
        | some outcome =>
          obtain ⟨next, rest, ret⟩ := outcome
          refine .pass none good step ?_
          rw [step] at good
          have further : ∀ state data, Made handlers.emit next (if ret then rest :: reads else reads)
              state data → PassFine state data := fun state data made =>
                fine state data (.later none step made)
          cases ret with
          | false => exact ih (after _ _ _ step) further
          | true => exact inner _ (bytes ▸ good rfl) rest (after _ _ _ step) further rfl

/-- Reads that go well are reads of the model without the checks, and come to an end there. -/
theorem ReadsWell.readAll (well : ReadsWell handlers.emit self reads) (pending : SocketPending self) :
    ∃ last, Gebr.Comm.readAll handlers.emit self reads = some last := by
  induction well with
  | done self => exact ⟨self, rfl⟩
  | empty well ih =>
    rw [readAll_empty]
    exact ih pending
  | pass some_byte ok step well ih =>
    obtain ⟨same, -, after⟩ := readTurnChecked_spec handlers pending some_byte
    rw [readAll_cons handlers.emit some_byte, ← same, step]
    exact ih (after _ _ _ step)

/-- **The read path of a new socket**, over any chunks: every pass finds what it works on and uses
up a byte or rejects the data, so that the loop stops, exactly if no pass is made on a `POST` or a
`DELETE` that comes as a new message, or on a message that is at its end already. -/
theorem readsWell_iff (handlers : Handlers ω) (kept : ω) (chunks : List Bytes) :
    ReadsWell handlers.emit (gebrCommProtocolSocketNew, kept) (chunks.map gebrCommSocketReadString) ↔
      ∀ state data, Made handlers.emit (gebrCommProtocolSocketNew, kept)
        (chunks.map gebrCommSocketReadString) state data → PassFine state data := by
  have pending : SocketPending (gebrCommProtocolSocketNew, kept) := fun msg member => nomatch member
  exact ⟨fun well state data made => well.fine pending made, readsWell_of_fine pending⟩

/-- The first pass of reads that go well, and what follows it. -/
theorem ReadsWell.cons {emit : Handler ω} (well : ReadsWell emit self (data :: reads))
    (some_byte : data ≠ []) :
    PassOk data (readTurnChecked emit self data) ∧
      ∀ next rest ret, readTurnChecked emit self data = some (next, rest, ret) →
        ReadsWell emit next (if ret then rest :: reads else reads) := by
  cases well with
  | empty => exact absurd rfl some_byte
  | pass _ ok step after =>
    refine ⟨ok, fun next rest ret step' => ?_⟩
    obtain ⟨rfl, tail⟩ := Prod.mk.inj (Option.some.inj (step.symm.trans step'))
    obtain ⟨rfl, rfl⟩ := Prod.mk.inj tail
    exact after

theorem ReadsWell.of_empty {emit : Handler ω} (well : ReadsWell emit self ([] :: reads)) :
    ReadsWell emit self reads := by
  cases well with
  | empty well => exact well
  | pass some_byte => exact absurd rfl some_byte

/-- Handlers that do nothing. -/
def idle : Handlers Unit := ⟨fun _ self => self, fun _ _ => rfl⟩

/-- **A `POST` has no message to be parsed into**; an end of a header that is cut between its line
feeds, or after which a content of no bytes is announced, is passed without a byte. -/
theorem not_readsWell :
    ¬ ReadsWell idle.emit (gebrCommProtocolSocketNew, ())
        ([ascii "POST /run\n\n"].map gebrCommSocketReadString) ∧
      ¬ ReadsWell idle.emit (gebrCommProtocolSocketNew, ())
        ([ascii "GET /run\r\n\r", ascii "\n"].map gebrCommSocketReadString) ∧
      ¬ ReadsWell idle.emit (gebrCommProtocolSocketNew, ())
        ([ascii "GET /run\ncontent-length:0\n\n", ascii "x"].map gebrCommSocketReadString) := by
  refine ⟨fun well => ?_, fun well => ?_, fun well => ?_⟩
  · exact (well.cons (by decide)).1
  · have second := ReadsWell.of_empty ((well.cons (by decide)).2 _ _ _ rfl)
    exact absurd ((second.cons (by decide)).1 rfl) (by decide +kernel)
  · have second := ReadsWell.of_empty ((well.cons (by decide)).2 _ _ _ rfl)
    exact absurd ((second.cons (by decide)).1 rfl) (by decide +kernel)

end Runs

end Gebr.Comm
