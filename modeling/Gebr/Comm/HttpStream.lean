/-
**HTTP messages on a stream, in any chunks.**

The parser keeps a partial message across the chunks: its header in `raw` until the header is whole,
and then its content.

* `httpFeedAll`: the chunks, each parsed as far as it goes.
* `Pending`: what is kept of a message of which some bytes have come; `parseLoop_pending`: the
  parser on the next ones.
* `httpFeedAll_messages`: the messages come out as they went in, whatever the chunks are.
-/

import Gebr.Comm.HttpHeaders
import Gebr.Comm.ProtocolStream

namespace Gebr.Comm

open Gebr.Lib.CString

section Model

/-- A partial message, and the messages that are whole. -/
abbrev HttpFed := Option GebrCommHttpMsg × List GebrCommHttpMsg

/-- One chunk: its bytes go to the parser until there are none. `none` is a crash, or bytes that
begin no message. -/
def httpFeed : ℕ → HttpFed → Bytes → Option HttpFed
  | 0, fed, _ => some fed
  | turns + 1, fed, data =>
    if data = [] then some fed
    else
      match gebrCommHttpMsgNewParsing fed.1 data with
      | .crash => none
      | .null => none
      | .msg msg data =>
        httpFeed turns (if msg.parsed then (none, fed.2 ++ [msg]) else (some msg, fed.2)) data

/-- The chunks, one after another. A turn that uses up nothing ends a message. -/
def httpFeedAll : HttpFed → List Bytes → Option HttpFed
  | fed, [] => some fed
  | fed, data :: chunks =>
    (httpFeed (2 * data.length + 1) fed data).bind fun fed => httpFeedAll fed chunks

/-- The bytes of some messages, one after another. -/
def httpStream (msgs : List HttpMessage) : Bytes := msgs.flatMap fun m => m.built.raw

/-- The first bytes of a message, by which the parser knows it. -/
def HttpStart.opening : HttpStart → Bytes
  | .request method _ => method.toBytes ++ [32]
  | .response _ => ascii "HTTP/1.1 "

/-- No chunk ends in the first bytes of a message. -/
def WholeOpenings (chunks : List Bytes) (msgs : List HttpMessage) : Prop :=
  ∀ before m after, msgs = before ++ m :: after → ∀ place, (httpStream before).length < place →
    place < (httpStream before).length + m.start.opening.length → ¬ Cut chunks place

namespace HttpMessage

variable (m : HttpMessage)

/-- The message that is parsed: the one that was built, with its headers as they were written. -/
def parsed : GebrCommHttpMsg := { m.built with headers := m.entries }

/-- The parser's message once it has read some of the content. -/
def bodyAt (j : ℕ) : GebrCommHttpMsg :=
  { m.headed with content := m.content.take j, raw := m.head ++ m.content.take j }

/-- What is kept of the message once so many of its bytes have come. -/
def Pending (place : ℕ) (msg : GebrCommHttpMsg) : Prop :=
  (msg = { m.fresh with raw := m.head.take place } ∧ place < m.head.length) ∨
    ∃ j < m.content.length, place = m.head.length + j ∧ msg = m.bodyAt j

end HttpMessage

end Model

section Parsing

namespace HttpMessage

variable {m : HttpMessage} {data later tail : Bytes} {place j : ℕ}

theorem content_built : m.built.content = m.content ∧ m.built.parsed = true := by
  unfold built
  cases m.start with
  | request method url => exact ⟨rfl, rfl⟩
  | response statusCode => exact ⟨rfl, rfl⟩

variable (m) in
theorem built_type : m.built.type = .request ∨ m.built.type = .response := by
  unfold built
  cases m.start with
  | request method url => exact Or.inl rfl
  | response statusCode => exact Or.inr rfl

theorem bodyAt_all : { m.bodyAt m.content.length with parsed := true } = m.parsed := by
  have raw := m.raw_built
  obtain ⟨content, done⟩ := @content_built m
  unfold bodyAt headed parsed
  rw [List.take_length, ← raw, ← content, ← done]

theorem two_le_head : 2 ≤ m.head.length := by
  unfold head lines
  rw [List.flatMap_cons]
  simp only [List.length_append, List.length_singleton]
  omega

theorem pending_unparsed {msg : GebrCommHttpMsg} (pending : m.Pending place msg) :
    msg.parsed = false := by
  rcases pending with ⟨rfl, -⟩ | ⟨j, -, -, rfl⟩
  · rfl
  · rfl

variable (carried : m.Carried)

include carried

/-- **The parser on a content.** -/
theorem Carried.parseContent_body (within : j ≤ m.content.length) (some_content : m.content ≠ [])
    (bytes : data ++ later = m.content.drop j ++ tail) :
    parseContent (m.bodyAt j) data =
      if m.content.length - j ≤ data.length then (m.parsed, data.drop (m.content.length - j))
      else (m.bodyAt (j + data.length), []) := by
  have length : headersLookup contentLength m.entries = some (decimal m.content.length) := by
    rw [carried.lookup_entries, if_neg some_content]
  have fits : value (decimal m.content.length) < 2 ^ 63 := by
    rw [value_decimal]
    exact m.fits
  have number : toSize (strtol (decimal m.content.length)).1 = m.content.length := by
    rw [strtol_digits (fun _ => isDigit_of_mem_decimal) fits, value_decimal, toSize_natCast m.fits]
  have missing : m.content.length - (m.content.take j).length = m.content.length - j := by
    rw [List.length_take, Nat.min_eq_left within]
  unfold parseContent
  rw [show (m.bodyAt j).headers = m.entries from rfl, length]
  simp only [number, show (m.bodyAt j).content = m.content.take j from rfl, missing]
  by_cases ends : m.content.length - j ≤ data.length
  · rw [if_pos ends, if_pos ends]
    have text : m.content.take j ++ data.take (m.content.length - j) = m.content := by
      have taken := congrArg (List.take (m.content.length - j)) bytes
      rw [List.take_append_of_le_length ends, ← List.length_drop, List.take_left,
        List.length_drop] at taken
      rw [taken, List.take_append_drop]
    rw [← bodyAt_all]
    unfold bodyAt
    simp only [List.append_assoc, text, List.take_length]
    rfl
  · rw [if_neg ends, if_neg ends]
    have text : m.content.take j ++ data = m.content.take (j + data.length) := by
      have taken := congrArg (List.take data.length) bytes
      rw [List.take_left, List.take_append_of_le_length (by rw [List.length_drop]; omega)] at taken
      rw [List.take_add, ← taken]
    unfold bodyAt
    simp only [List.append_assoc, text]
    rfl

theorem Carried.parseHeaders_short (bytes : data ++ later = m.head.drop place ++ tail)
    (short : place + data.length < m.head.length) :
    parseHeaders { m.fresh with raw := m.head.take place } data =
      ({ m.fresh with raw := m.head.take (place + data.length) }, []) := by
  have text : m.head.take place ++ data = m.head.take (place + data.length) := by
    have taken := congrArg (List.take data.length) bytes
    rw [List.take_left, List.take_append_of_le_length (by rw [List.length_drop]; omega)] at taken
    rw [List.take_add, ← taken]
  have none := carried.strstr_short (List.take_prefix (place + data.length) m.head)
    (by rw [List.length_take]; omega)
  unfold parseHeaders
  simp only [text, none.1, none.2, Option.or_none]

/-- **The parser on the end of a header.** -/
theorem Carried.parseHeaders_ends {rest : Bytes} (within : place < m.head.length)
    (bytes : data = m.head.drop place ++ rest) :
    parseHeaders { m.fresh with raw := m.head.take place } data =
      ({ m.headed with parsed := m.content = [] }, rest) := by
  have text : m.head.take place ++ data = m.head ++ rest := by
    rw [bytes, ← List.append_assoc, List.take_append_drop]
  have two := @two_le_head m
  have length : (m.head.take place).length = place := by
    rw [List.length_take, Nat.min_eq_left within.le]
  have count : m.head.length - 2 + 2 - (m.head.take place).length = (m.head.drop place).length := by
    rw [length, List.length_drop]
    omega
  unfold parseHeaders
  simp only [text, carried.strstr_head rest, Option.some_or, count]
  rw [bytes, List.take_left, List.drop_left, List.take_append_drop, carried.fieldfy_head]
  simp only [show m.headed.headers = m.entries from rfl, carried.lookup_entries]
  by_cases empty : m.content = []
  · simp only [empty, if_true, decide_true]
  · simp only [empty, if_false, decide_false, reduceCtorEq]
    rfl

omit carried in
theorem headed_eq : m.headed = m.bodyAt 0 := by
  unfold bodyAt
  rw [List.take_zero, List.append_nil]
  rfl

/-- The parser on the end of a header and what follows it. -/
theorem Carried.parseLoop_ends {rest : Bytes} (within : place < m.head.length)
    (bytes : data = m.head.drop place ++ rest) (bytes' : rest ++ later = m.content ++ tail) :
    ∃ t ≤ rest.length, ∃ next, parseLoop { m.fresh with raw := m.head.take place } data =
      (next, rest.drop t) ∧ (next = m.parsed ∧ t = m.content.length ∨
        t = rest.length ∧ m.Pending (m.head.length + t) next) := by
  have header := carried.parseHeaders_ends within bytes
  unfold parseLoop
  rw [show ({ m.fresh with raw := m.head.take place } : GebrCommHttpMsg).parsedHeaders =
    false from rfl]
  simp only [Bool.false_eq_true, if_false, header]
  by_cases empty : m.content = []
  · refine ⟨0, Nat.zero_le _, m.parsed, ?_, Or.inl ⟨rfl, by rw [empty]; rfl⟩⟩
    have done := @bodyAt_all m
    rw [empty, List.length_nil, ← headed_eq] at done
    simp only [empty, decide_true, done, List.drop_zero, Bool.true_eq_false, false_and, if_false]
  · have pending : { m.headed with parsed := decide (m.content = []) } = m.bodyAt 0 := by
      rw [decide_eq_false empty, ← headed_eq]
      rfl
    have positive := List.length_pos_iff.2 empty
    rw [pending]
    by_cases none : rest = []
    · rw [none, if_neg (by simp)]
      exact ⟨0, Nat.zero_le _, _, rfl, Or.inr ⟨rfl, Or.inr ⟨0, positive, rfl, rfl⟩⟩⟩
    · rw [if_pos ⟨decide_eq_false empty, none⟩, carried.parseContent_body (Nat.zero_le _) empty bytes']
      split
      · rename_i ends
        exact ⟨_, by omega, _, rfl, Or.inl ⟨rfl, Nat.sub_zero _⟩⟩
      · rename_i short
        refine ⟨rest.length, le_rfl, _, by rw [List.drop_length], Or.inr ⟨rfl, Or.inr ?_⟩⟩
        exact ⟨rest.length, by omega, rfl, by rw [Nat.zero_add]⟩

/-- **The parser on the next bytes of a message**: it ends the message, or uses them all. -/
theorem Carried.parseLoop_pending {msg : GebrCommHttpMsg} (pending : m.Pending place msg)
    (some_byte : data ≠ [])
    (bytes : data ++ later = (m.head ++ m.content).drop place ++ tail) :
    ∃ t, 0 < t ∧ t ≤ data.length ∧ ∃ next, parseLoop msg data = (next, data.drop t) ∧
      (next = m.parsed ∧ place + t = m.head.length + m.content.length ∨
        t = data.length ∧ m.Pending (place + t) next) := by
  have positive := List.length_pos_iff.2 some_byte
  rcases pending with ⟨rfl, within⟩ | ⟨j, within, rfl, rfl⟩
  · rw [List.drop_append_of_le_length within.le, List.append_assoc] at bytes
    by_cases short : place + data.length < m.head.length
    · refine ⟨data.length, positive, le_rfl, _, ?_, Or.inr ⟨rfl, Or.inl ⟨rfl, short⟩⟩⟩
      unfold parseLoop
      rw [show ({ m.fresh with raw := m.head.take place } : GebrCommHttpMsg).parsedHeaders = false
        from rfl, if_neg (by decide), carried.parseHeaders_short bytes short, List.drop_length]
      simp
    · obtain ⟨rest, rfl⟩ : ∃ rest, data = m.head.drop place ++ rest := by
        have front : m.head.drop place <+: data := by
          refine List.prefix_of_prefix_length_le ⟨_, rfl⟩ ⟨_, bytes⟩ ?_
          rw [List.length_drop]
          omega
        exact front.imp fun _ same => same.symm
      rw [List.append_assoc, List.append_cancel_left_eq] at bytes
      obtain ⟨t, inside, next, same, outcome⟩ := carried.parseLoop_ends within rfl bytes
      have length : (m.head.drop place ++ rest).length = m.head.length - place + rest.length := by
        rw [List.length_append, List.length_drop]
      refine ⟨m.head.length - place + t, by omega, by omega, next, ?_, ?_⟩
      · rw [same, ← List.drop_drop, ← List.length_drop, List.drop_left]
      · rcases outcome with ⟨whole, count⟩ | ⟨count, pending⟩
        · exact Or.inl ⟨whole, by omega⟩
        · refine Or.inr ⟨by omega, ?_⟩
          rw [show place + (m.head.length - place + t) = m.head.length + t by omega]
          exact pending
  · have some_content : m.content ≠ [] := List.length_pos_iff.1 (by omega)
    rw [List.drop_append, List.drop_eq_nil_of_le (by omega), List.nil_append,
      Nat.add_sub_cancel_left] at bytes
    have body := carried.parseContent_body within.le some_content bytes
    unfold parseLoop
    rw [if_pos (show (m.bodyAt j).parsedHeaders = true from ?_)]
    · simp only
      rw [if_pos ⟨show (m.bodyAt j).parsed = false from rfl, some_byte⟩, body]
      split
      · exact ⟨m.content.length - j, by omega, by omega, _, rfl, Or.inl ⟨rfl, by omega⟩⟩
      · refine ⟨data.length, positive, le_rfl, _, by rw [List.drop_length], Or.inr ⟨rfl, Or.inr ?_⟩⟩
        exact ⟨j + data.length, by omega, by omega, rfl⟩
    · show m.built.parsedHeaders = true
      unfold built
      cases m.start with
      | request method url => rfl
      | response statusCode => rfl

omit carried in
theorem opening_head : m.start.opening <+: m.head := by
  have line : m.start.opening <+: m.start.line := by
    unfold HttpStart.opening HttpStart.line
    cases m.start with
    | request method url => exact ⟨url, by rw [List.append_assoc]; rfl⟩
    | response statusCode => exact ⟨decimal statusCode ++ ascii " OK", (List.append_assoc _ _ _).symm⟩
  unfold head lines
  rw [List.flatMap_cons, List.append_assoc, List.append_assoc]
  exact line.trans (List.prefix_append _ _)

theorem Carried.opening_mem : m.start.opening ∈ httpPrefixes := by
  cases start : m.start with
  | request method url =>
    rcases carried.method method url start with rfl | rfl
    · exact (by decide : ascii "GET " ∈ httpPrefixes)
    · exact (by decide : ascii "PUT " ∈ httpPrefixes)
  | response statusCode => exact (by decide : ascii "HTTP/1.1 " ∈ httpPrefixes)

/-- The parser knows a message by its first bytes. -/
theorem Carried.newParsing_opening (begins : m.start.opening <+: data) :
    gebrCommHttpMsgNewParsing none data = .msg (parseLoop m.fresh data).1
    (parseLoop m.fresh data).2 := by
  obtain ⟨rest, rfl⟩ := begins
  unfold fresh built
  cases start : m.start with
  | request method url =>
    rcases carried.method method url start with rfl | rfl
    · rfl
    · rfl
  | response statusCode => rfl

end HttpMessage

end Parsing

section Runs

theorem httpStream_append (first second : List HttpMessage) :
    httpStream (first ++ second) = httpStream first ++ httpStream second := List.flatMap_append

theorem httpStream_cons (m : HttpMessage) (msgs : List HttpMessage) :
    httpStream (m :: msgs) = m.head ++ m.content ++ httpStream msgs := by
  rw [httpStream, List.flatMap_cons, m.raw_built]
  rfl

/-- **What has been fed** once so many bytes are used up: whole messages, and perhaps a partial
one. -/
inductive FedTo (msgs : List HttpMessage) (used : ℕ) (fed : HttpFed) : Prop
  | between {done todo} (split : msgs = done ++ todo) (place : used = (httpStream done).length)
      (state : fed = (none, done.map HttpMessage.parsed))
  | within {done m todo offset msg} (split : msgs = done ++ m :: todo)
      (place : used = (httpStream done).length + offset) (pending : m.Pending offset msg)
      (state : fed = (some msg, done.map HttpMessage.parsed))

variable {chunks later : List Bytes} {msgs done todo : List HttpMessage} {m : HttpMessage}
    {data : Bytes}
  {used : ℕ}

/-- The next bytes of a message go to the message. -/
theorem fed_step (all : chunks.flatten = httpStream msgs) (split : msgs = done ++ m :: todo)
    (carried : m.Carried) (left : Left chunks used (data :: later)) (some_byte : data ≠ []) {place : ℕ}
    (at_place : used = (httpStream done).length + place) {msg : GebrCommHttpMsg}
    (pending : m.Pending place msg) :
    ∃ t, 0 < t ∧ t ≤ data.length ∧ ∃ next, parseLoop msg data = (next, data.drop t) ∧
      FedTo msgs (used + t)
        (if next.parsed then (none, done.map HttpMessage.parsed ++ [next])
          else (some next, done.map HttpMessage.parsed)) := by
  have bytes := left.bytes
  have short : place ≤ (m.head ++ m.content).length := by
    rw [List.length_append]
    rcases pending with ⟨-, within⟩ | ⟨j, within, rfl, -⟩
    · omega
    · omega
  rw [List.flatten_cons, all, split, httpStream_append, httpStream_cons, at_place, List.drop_append,
    List.drop_eq_nil_of_le (Nat.le_add_right _ _), List.nil_append, Nat.add_sub_cancel_left,
    List.drop_append_of_le_length short] at bytes
  obtain ⟨t, positive, inside, next, same, outcome⟩ := carried.parseLoop_pending pending
    some_byte bytes
  refine ⟨t, positive, inside, next, same, ?_⟩
  rcases outcome with ⟨rfl, count⟩ | ⟨-, pending⟩
  · rw [if_pos (show m.parsed.parsed = true from (@HttpMessage.content_built m).2)]
    refine .between (split.trans (List.append_cons ..)) ?_ ?_
    · rw [httpStream_append, httpStream_cons, List.length_append, List.length_append,
        List.length_append]
      simp only [httpStream, List.flatMap_nil, List.length_nil] at at_place ⊢
      omega
    · rw [List.map_append]
      rfl
  · rw [HttpMessage.pending_unparsed pending]
    exact .within split (show used + t = (httpStream done).length + (place + t) by omega) pending rfl

theorem FedTo.turn (all : chunks.flatten = httpStream msgs) (carried : ∀ m ∈ msgs, m.Carried)
    (openings : WholeOpenings chunks msgs) (left : Left chunks used (data :: later))
    (some_byte : data ≠ []) {fed : HttpFed} (state : FedTo msgs used fed) :
    ∃ t, 0 < t ∧ t ≤ data.length ∧ ∃ next, gebrCommHttpMsgNewParsing fed.1 data = .msg next
      (data.drop t) ∧ FedTo msgs (used + t)
      (if next.parsed then (none, fed.2 ++ [next]) else (some next, fed.2)) := by
  cases state with
  | @between done todo split place state =>
    rw [state]
    have bytes := left.bytes
    rw [List.flatten_cons, all, split, httpStream_append, place, List.drop_left] at bytes
    cases todo with
    | nil => exact absurd (List.append_eq_nil_iff.1 bytes).1 some_byte
    | cons m todo =>
      have fine := carried m (split ▸ List.mem_append_right done List.mem_cons_self)
      have two := @HttpMessage.two_le_head m
      rw [httpStream_cons] at bytes
      have begins : m.start.opening <+: data := by
        refine List.prefix_of_prefix_length_le ?_ ⟨_, bytes⟩ ?_
        · refine HttpMessage.opening_head.trans ?_
          exact (List.prefix_append _ _).trans (List.prefix_append _ _)
        · by_contra torn
          have positive := List.length_pos_iff.2 some_byte
          have total := congrArg List.length bytes
          have shorter := (@HttpMessage.opening_head m).length_le
          rw [List.length_append, List.length_append, List.length_append] at total
          refine openings done m todo split (used + data.length) (by omega) (by omega)
            (left.cut some_byte fun none => ?_)
          rw [none, List.length_nil] at total
          omega
      have pending : m.Pending 0 m.fresh := Or.inl ⟨rfl, by omega⟩
      obtain ⟨t, positive, inside, next, same, fed'⟩ :=
        fed_step all split fine left some_byte (place.trans (Nat.add_zero _).symm) pending
      refine ⟨t, positive, inside, next, ?_, fed'⟩
      rw [fine.newParsing_opening begins, same]
  | within split place pending state =>
    rename_i done m todo offset msg
    rw [state]
    have fine := carried m (split ▸ List.mem_append_right done List.mem_cons_self)
    obtain ⟨t, positive, inside, next, same, fed'⟩ := fed_step all split fine left some_byte
      place pending
    refine ⟨t, positive, inside, next, ?_, fed'⟩
    rw [gebrCommHttpMsgNewParsing, parsingBy,
      if_pos ⟨HttpMessage.pending_unparsed pending, some_byte⟩, same]

theorem httpFeed_chunk (all : chunks.flatten = httpStream msgs) (carried : ∀ m ∈ msgs, m.Carried)
    (openings : WholeOpenings chunks msgs) (left : Left chunks used (data :: later)) {fed : HttpFed}
    (state : FedTo msgs used fed) {turns : ℕ} (enough : data.length < turns) :
    ∃ next, httpFeed turns fed data = some next ∧ FedTo msgs (used + data.length) next := by
  induction turns generalizing data used fed with
  | zero => exact absurd enough (Nat.not_lt_zero _)
  | succ turns ih =>
    by_cases empty : data = []
    · rw [httpFeed, if_pos empty, empty]
      exact ⟨fed, rfl, state⟩
    · obtain ⟨t, positive, inside, next, same, state'⟩ := state.turn all carried openings left empty
      have count : used + t + (data.drop t).length = used + data.length := by
        rw [List.length_drop]
        omega
      rw [httpFeed, if_neg empty, same, ← count]
      exact ih (left.drop inside) state' (by rw [List.length_drop]; omega)

/-- The chunks are used up, and nothing is pending. -/
theorem httpFeedAll_parsed (msgs : List HttpMessage) (chunks : List Bytes)
    (carried : ∀ m ∈ msgs, m.Carried) (all : chunks.flatten = httpStream msgs)
    (openings : WholeOpenings chunks msgs) :
    httpFeedAll (none, []) chunks = some (none, msgs.map HttpMessage.parsed) := by
  have run : ∀ (left : List Bytes) (used : ℕ) (fed : HttpFed), Left chunks used left →
      FedTo msgs used fed → ∃ next, httpFeedAll fed left = some next ∧
          FedTo msgs chunks.flatten.length next := by
    intro left
    induction left with
    | nil =>
      intro used fed left state
      have ended := left.bound
      have count := congrArg List.length left.bytes
      rw [List.length_drop] at count
      rw [List.flatten_nil, List.length_nil] at count
      exact ⟨fed, rfl, (show used = chunks.flatten.length by omega) ▸ state⟩
    | cons data later ih =>
      intro used fed left state
      obtain ⟨next, same, state'⟩ := httpFeed_chunk all carried openings left state
        (show data.length < 2 * data.length + 1 by omega)
      obtain ⟨final, rest, ended⟩ := ih _ next left.next state'
      exact ⟨final, by rw [httpFeedAll, same]; exact rest, ended⟩
  obtain ⟨final, same, state⟩ := run chunks 0 (none, []) (left_refl chunks)
    (@FedTo.between msgs 0 _ [] msgs rfl rfl rfl)
  rw [same]
  cases state with
  | @between done todo split place state =>
    cases todo with
    | nil => rw [state, split, List.append_nil]
    | cons m todo =>
      have two := @HttpMessage.two_le_head m
      rw [all, split, httpStream_append, httpStream_cons] at place
      simp only [List.length_append] at place
      omega
  | @within done m todo offset msg split place pending state =>
    have short : offset < m.head.length + m.content.length := by
      rcases pending with ⟨-, within⟩ | ⟨j, within, rfl, -⟩
      · omega
      · omega
    rw [all, split, httpStream_append, httpStream_cons] at place
    simp only [List.length_append] at place
    omega

/-- **The messages come out as they went in**, whatever the chunks are: each with its method, its
url or code, its content and its bytes, and with its headers in the order in which they were
written. -/
theorem httpFeedAll_messages (msgs : List HttpMessage) (chunks : List Bytes)
    (carried : ∀ m ∈ msgs, m.Carried) (all : chunks.flatten = httpStream msgs)
    (openings : WholeOpenings chunks msgs) :
    ∃ entries : HttpMessage → Headers, (∀ m, (entries m).Perm m.built.headers) ∧
      httpFeedAll (none, []) chunks =
        some (none, msgs.map fun m => { m.built with headers := entries m }) :=
  ⟨HttpMessage.entries, fun m => m.order.perm m.built.headers,
    httpFeedAll_parsed msgs chunks carried all openings⟩

/-- A table that gives back its entries as they are. -/
def plainOrder : HeaderOrder := ⟨id, fun _ => List.Perm.refl _⟩

/-- A message without a content, and with one header. -/
def oneHeader (method : GebrCommHttpRequestMethod) (key value : Bytes)
    (fine : key.map toLower = key ∧ 58 ∉ key ∧ 10 ∉ key) (line : 10 ∉ value) (content : Bytes)
    (fits : content.length < 2 ^ 63) : HttpMessage where
  order := plainOrder
  start := .request method (ascii "/run")
  headers := [(key, value)]
  content := content
  url := by
    intro method url same
    cases same
    decide
  status := fun _ same => nomatch same
  distinct := List.nodup_singleton key
  keys := fun entry member => by
    rw [List.mem_singleton.1 member]
    exact fine
  values := fun entry member => by
    rw [List.mem_singleton.1 member]
    exact line
  fits := fits

def putMessage : HttpMessage :=
  oneHeader .put (ascii "host") (ascii "a:b") (by decide) (by decide) (ascii "GET /x" ++ [10, 10])
    (by decide)

def getMessage : HttpMessage :=
  oneHeader .get (ascii "host") (ascii "c") (by decide) (by decide) [] (by decide)

theorem cut_pair {first second : Bytes} {place : ℕ} (cut : Cut [first, second] place) :
    place = 0 ∨ place = first.length := by
  obtain ⟨before, after, split, length, more⟩ := cut
  match before with
  | [] => exact Or.inl length.symm
  | [one] =>
    obtain ⟨rfl, -⟩ := List.cons.inj split
    exact Or.inr (by rw [← length, List.flatten_cons, List.flatten_nil, List.append_nil])
  | one :: two :: before =>
    have tail := (List.cons.inj (List.cons.inj split).2).2
    rw [(List.append_eq_nil_iff.1 tail.symm).2] at more
    exact absurd rfl more

/-- A chunk that ends in a content, which looks like a message. -/
theorem httpFeedAll_messages_pair :
    ∃ entries : HttpMessage → Headers, (∀ m, (entries m).Perm m.built.headers) ∧
      httpFeedAll (none, [])
          [(httpStream [putMessage, getMessage]).take 42,
        (httpStream [putMessage, getMessage]).drop 42] =
        some (none, [putMessage, getMessage].map fun m => { m.built with headers := entries m }) := by
  refine httpFeedAll_messages _ _ ?_ (by decide +kernel) ?_
  · intro m member
    rcases List.mem_cons.1 member with rfl | member
    · refine ⟨fun method url same => ?_, by decide, by decide⟩
      cases same
      exact Or.inr rfl
    · obtain rfl := List.mem_singleton.1 member
      refine ⟨fun method url same => ?_, by decide, by decide⟩
      cases same
      exact Or.inl rfl
  · intro before m after split place low high cut
    have cuts := cut_pair cut
    have length : ((httpStream [putMessage, getMessage]).take 42).length = 42 := by decide +kernel
    rw [length] at cuts
    match before with
    | [] =>
      obtain ⟨rfl, -⟩ := List.cons.inj split
      have opening : putMessage.start.opening.length = 4 := rfl
      simp only [httpStream, List.flatMap_nil, List.length_nil] at low high
      omega
    | [one] =>
      obtain ⟨rfl, -⟩ := List.cons.inj split
      have front : (httpStream [putMessage]).length = 44 := by decide +kernel
      omega
    | one :: two :: before =>
      have tail := (List.cons.inj (List.cons.inj split).2).2
      exact absurd tail.symm (List.append_ne_nil_of_right_ne_nil _ (List.cons_ne_nil _ _))

/-- A request whose only header has an empty key. -/
def unkeyedMessage : HttpMessage :=
  oneHeader .get [] (ascii "x") (by decide) (by decide) [] (by decide)

/-- A request whose header gives a length that its content does not have. -/
def lengthyMessage : HttpMessage :=
  oneHeader .get contentLength (ascii "5") (by decide) (by decide) [] (by decide)

/-- A request by the method that the parser has no branch for. -/
def postMessage : HttpMessage :=
  oneHeader .post (ascii "host") (ascii "c") (by decide) (by decide) [] (by decide)

/-- An empty key is not read; a length without a content is waited for; a `POST` is a crash. -/
theorem httpFeedAll_unlike :
    httpFeedAll (none, []) [unkeyedMessage.built.raw] ≠ some (none, [unkeyedMessage.parsed]) ∧
      httpFeedAll (none, []) [lengthyMessage.built.raw] ≠ some (none, [lengthyMessage.parsed]) ∧
      httpFeedAll (none, []) [postMessage.built.raw] ≠ some (none, [postMessage.parsed]) := by
  refine ⟨?_, ?_, ?_⟩ <;> decide +kernel

end Runs

end Gebr.Comm
