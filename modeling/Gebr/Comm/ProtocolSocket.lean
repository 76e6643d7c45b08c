/-
**A protocol socket: two protocols on one stream.**

What is read from the stream goes to the decoder of the old messages or to the parser of the HTTP
messages, and a signal tells the handlers of each message. The handlers may change the socket (they
take the old messages, and send requests) and whatever else they keep, of type `ω`.

* `gebrCommProtocolSocketRead`: one read of the stream.
* `gebrCommProtocolSocketSendRequest`: a request, which waits for its response.
* `readAll_cons`: a read is one turn, and then a read of what is left of the data.
-/

import Gebr.Comm.Protocol

namespace Gebr.Comm

open Gebr.Lib.CString

section Model

/-- `GebrCommProtocolSocket`; `connected` is the state of the stream below it. -/
structure GebrCommProtocolSocket where
  protocol : GebrCommProtocol
  incomingMsg : Option GebrCommHttpMsg
  requestsFifo : List GebrCommHttpMsg
  connected : Bool
  deriving DecidableEq, Repr

/-- `gebr_comm_protocol_socket_init`, on a stream that is connected. -/
def gebrCommProtocolSocketNew : GebrCommProtocolSocket := ⟨gebrCommProtocolNew, none, [], true⟩

/-- The signals of a protocol socket, and the one of a request. -/
inductive Signal where
  | processRequest (request : GebrCommHttpMsg)
  | processResponse (request response : GebrCommHttpMsg)
  | responseReceived (request response : GebrCommHttpMsg)
  | oldParseMessages
  deriving DecidableEq, Repr

variable {ω : Type}

/-- What the handlers of a signal do. -/
abbrev Handler (ω : Type) := Signal → GebrCommProtocolSocket × ω → GebrCommProtocolSocket × ω

/-- What a function does that may read through `NULL`: `none` is the end of the program. -/
abbrev Outcome (ω : Type) := Option ((GebrCommProtocolSocket × ω) × Bytes × Bool)

/-- The end of `parse_http_msg`, for a message that is parsed. -/
def httpParsed (emit : Handler ω) (msg : GebrCommHttpMsg) (self : GebrCommProtocolSocket × ω) :
    GebrCommProtocolSocket × ω :=
  let self :=
    match msg.type with
    | .request => emit (.processRequest msg) self
    | .response =>
      match self.1.requestsFifo with
      | [] => self
      | request :: _ =>
        let self := emit (.processResponse request msg) self
        let self := emit (.responseReceived request msg) self
        ({ self.1 with requestsFifo := self.1.requestsFifo.tail }, self.2)
    | .unknown => self
  ({ self.1 with incomingMsg := none }, self.2)

/-- `parse_http_msg`, by what a call of the parser came to. -/
def afterParsing (emit : Handler ω) (self : GebrCommProtocolSocket × ω) (data : Bytes) :
    Parsing → Outcome ω
  | .crash => none
  | .null => some (({ self.1 with incomingMsg := none }, self.2), data, false)
  | .msg msg data =>
    let self := ({ self.1 with incomingMsg := some msg }, self.2)
    if msg.parsed = false then some (self, data, true)
    else some (httpParsed emit msg self, data, true)

/-- `parse_http_msg`. -/
def parseHttpMsg (emit : Handler ω) (self : GebrCommProtocolSocket × ω) (data : Bytes) : Outcome ω :=
  afterParsing emit self data (gebrCommHttpMsgNewParsing self.1.incomingMsg data)

/-- `parse_old_msg`. -/
def parseOldMsg (emit : Handler ω) (self : GebrCommProtocolSocket × ω) (data : Bytes) : Outcome ω :=
  let (protocol, data, ret) := gebrCommProtocolReceiveData self.1.protocol data
  let self := ({ self.1 with protocol }, self.2)
  some (if ret then emit .oldParseMessages self else self, data, ret)

/-- The first bytes of an HTTP message. -/
def httpPrefixes : List Bytes := ["HTTP/1.1 ", "GET ", "PUT ", "POST ", "DELETE "].map ascii

/-- One turn of the loop of `gebr_comm_protocol_socket_read`, by what it comes to on an HTTP
message. -/
def turnBy (http : Outcome ω) (emit : Handler ω) (self : GebrCommProtocolSocket × ω) (data : Bytes) :
    Outcome ω :=
  if self.1.protocol.message.hash ≠ 0 then parseOldMsg emit self data
  else if self.1.incomingMsg.isSome then http
  else if httpPrefixes.any fun first => first.isPrefixOf data then http
  else parseOldMsg emit self data

/-- One turn of the loop of `gebr_comm_protocol_socket_read`. -/
def readTurn (emit : Handler ω) (self : GebrCommProtocolSocket × ω) (data : Bytes) : Outcome ω :=
  turnBy (parseHttpMsg emit self data) emit self data

/-- The loop of `gebr_comm_protocol_socket_read`; `turns` bounds how often it turns. -/
def readLoop (emit : Handler ω) :
    ℕ → GebrCommProtocolSocket × ω → Bytes → Option (GebrCommProtocolSocket × ω)
  | 0, self, _ => some self
  | turns + 1, self, data =>
    if data = [] then some self
    else
      match readTurn emit self data with
      | none => none
      | some (self, data, ret) => if ret then readLoop emit turns self data else some self

/-- `gebr_comm_protocol_socket_read` of what has arrived. A turn that uses up nothing ends an HTTP
message, and is followed by one that does. -/
def gebrCommProtocolSocketRead (emit : Handler ω) (self : GebrCommProtocolSocket × ω) (data : Bytes) :
    Option (GebrCommProtocolSocket × ω) :=
  readLoop emit (2 * data.length + 1) self data

/-- Several reads, one after another. -/
def readAll (emit : Handler ω) :
    GebrCommProtocolSocket × ω → List Bytes → Option (GebrCommProtocolSocket × ω)
  | self, [] => some self
  | self, data :: reads =>
    (gebrCommProtocolSocketRead emit self data).bind fun self => readAll emit self reads

/-- `gebr_comm_protocol_socket_send_request`: the message that goes to the stream, and the socket,
where it waits for its response. Without a connection nothing is sent. -/
def gebrCommProtocolSocketSendRequest (order : HeaderOrder) (method : GebrCommHttpRequestMethod)
    (url : Bytes) (content : Option Bytes) (self : GebrCommProtocolSocket) :
    GebrCommProtocolSocket × Option GebrCommHttpMsg :=
  if self.connected = false then (self, none)
  else
    let headers := [(ascii "content-type", some (ascii "application/json"))]
    let msg := gebrCommHttpMsgNewRequest order method url headers (content.getD [])
    ({ self with requestsFifo := self.requestsFifo ++ [msg] }, some msg)

/-- `gebr_comm_protocol_socket_resend_message`: the bytes that go to the stream. `junk` is what is
in a `ret_hash` that was not written; a hash without a code ends the program. -/
def gebrCommProtocolSocketResendMessage (junk : ℕ) (message : GebrCommMessage) : Option Bytes :=
  match codeOfHash message.hash with
  | none => none
  | some code =>
    let tail := 32 :: decimal message.argumentSize ++ 32 :: message.argument ++ [10]
    if message.hash ≠ gStrHash retCode then some (code ++ tail)
    else
      match codeOfHash (message.retHash.getD junk) with
      | none => none
      | some ret => some (code ++ 58 :: ret ++ tail)

end Model

section Reading

variable {ω : Type} (emit : Handler ω) {self next : GebrCommProtocolSocket × ω} {data rest : Bytes}

/-- What is left to be done of a read: the bytes, twice, and a message that may end without one. -/
def weight (self : GebrCommProtocolSocket × ω) (data : Bytes) : ℕ :=
  2 * data.length + if self.1.incomingMsg.isSome then 1 else 0

theorem weight_le (self : GebrCommProtocolSocket × ω) (data : Bytes) :
    weight self data ≤ 2 * data.length + 1 := by
  unfold weight
  split <;> omega

theorem incomingMsg_httpParsed (msg : GebrCommHttpMsg) (self : GebrCommProtocolSocket × ω) :
    (httpParsed emit msg self).1.incomingMsg = none := rfl

theorem parseOldMsg_cases {ret : Bool} (parsed : parseOldMsg emit self data = some (next, rest, ret)) :
    ∃ protocol, gebrCommProtocolReceiveData self.1.protocol data = (protocol, rest, ret) ∧
      next = if ret then emit .oldParseMessages ({ self.1 with protocol }, self.2)
        else ({ self.1 with protocol }, self.2) := by
  unfold parseOldMsg at parsed
  generalize received : gebrCommProtocolReceiveData self.1.protocol data = outcome at parsed
  obtain ⟨protocol, left, read⟩ := outcome
  obtain ⟨rfl, tail⟩ := Prod.mk.inj (Option.some.inj parsed)
  obtain ⟨rfl, rfl⟩ := Prod.mk.inj tail
  exact ⟨protocol, rfl, rfl⟩

/-- What a turn on an HTTP message can be: there is none to begin, it has to wait, or it is handed
over. -/
theorem parseHttpMsg_cases {ret : Bool}
    (parsed : parseHttpMsg emit self data = some (next, rest, ret)) :
    (ret = false ∧ rest = data ∧ next = ({ self.1 with incomingMsg := none }, self.2)) ∨ ∃ msg,
      gebrCommHttpMsgNewParsing self.1.incomingMsg data = .msg msg rest ∧ ret = true ∧
        ((msg.parsed = false ∧ next = ({ self.1 with incomingMsg := some msg }, self.2)) ∨
          (msg.parsed ≠ false ∧ next =
          httpParsed emit msg ({ self.1 with incomingMsg := some msg }, self.2))) := by
  unfold parseHttpMsg afterParsing at parsed
  cases called : gebrCommHttpMsgNewParsing self.1.incomingMsg data with
  | crash =>
    rw [called] at parsed
    exact nomatch parsed
  | null =>
    rw [called] at parsed
    obtain ⟨rfl, tail⟩ := Prod.mk.inj (Option.some.inj parsed)
    obtain ⟨rfl, rfl⟩ := Prod.mk.inj tail
    exact .inl ⟨rfl, rfl, rfl⟩
  | msg msg left =>
    rw [called] at parsed
    simp only at parsed
    split at parsed
    all_goals
      rename_i ended
      obtain ⟨rfl, tail⟩ := Prod.mk.inj (Option.some.inj parsed)
      obtain ⟨rfl, rfl⟩ := Prod.mk.inj tail
    · exact .inr ⟨msg, rfl, rfl, .inl ⟨ended, rfl⟩⟩
    · exact .inr ⟨msg, rfl, rfl, .inr ⟨ended, rfl⟩⟩

theorem parseOldMsg_weight (some_byte : data ≠ [])
    (parsed : parseOldMsg emit self data = some (next, rest, true)) :
    weight next rest < weight self data := by
  obtain ⟨protocol, received, -⟩ := parseOldMsg_cases emit parsed
  have fewer := receiveData_length_lt some_byte received
  have bound := weight_le next rest
  unfold weight at bound ⊢
  omega

/-- A turn on an HTTP message uses up a byte, or ends the message. -/
theorem parseHttpMsg_weight (some_byte : data ≠ [])
    (parsed : parseHttpMsg emit self data = some (next, rest, true)) :
    weight next rest < weight self data := by
  have positive := List.length_pos_iff.2 some_byte
  rcases parseHttpMsg_cases emit parsed with ⟨stopped, -⟩ | ⟨msg, called, -, left⟩
  · exact absurd stopped (by decide)
  obtain ⟨ended, fewer, started⟩ := newParsing_spec some_byte called
  rcases left with ⟨unparsed, -⟩ | ⟨-, rfl⟩
  · have used : rest = [] := ended.resolve_left (by rw [unparsed]; decide)
    have bound := weight_le next rest
    rw [used, List.length_nil] at bound
    unfold weight at bound ⊢
    rw [used, List.length_nil]
    omega
  · unfold weight
    rw [incomingMsg_httpParsed]
    cases incoming : self.1.incomingMsg with
    | none =>
      have less := started incoming
      simp only [Option.isSome_none, Bool.false_eq_true, if_false]
      omega
    | some msg =>
      simp only [Option.isSome_none, Option.isSome_some, Bool.false_eq_true, if_false, if_true]
      omega

/-- **Every turn that goes on uses up something.** -/
theorem readTurn_weight (some_byte : data ≠ [])
    (turn : readTurn emit self data = some (next, rest, true)) :
    weight next rest < weight self data := by
  unfold readTurn turnBy at turn
  split_ifs at turn
  · exact parseOldMsg_weight emit some_byte turn
  · exact parseHttpMsg_weight emit some_byte turn
  · exact parseHttpMsg_weight emit some_byte turn
  · exact parseOldMsg_weight emit some_byte turn

theorem readLoop_eq {turns more : ℕ} (enough : weight self data ≤ turns)
    (enough' : weight self data ≤ more) :
    readLoop emit turns self data = readLoop emit more self data := by
  induction turns generalizing more self data with
  | zero =>
    have empty : data = [] := by
      apply List.length_eq_zero_iff.1
      unfold weight at enough
      omega
    rw [empty]
    cases more with
    | zero => rfl
    | succ more => rw [readLoop, readLoop, if_pos rfl]
  | succ turns ih =>
    by_cases empty : data = []
    · rw [empty]
      cases more with
      | zero => rw [readLoop, readLoop, if_pos rfl]
      | succ more => rw [readLoop, readLoop, if_pos rfl, if_pos rfl]
    · have positive := List.length_pos_iff.2 empty
      obtain ⟨more, rfl⟩ := Nat.exists_eq_succ_of_ne_zero
        (show more ≠ 0 by unfold weight at enough'; omega)
      rw [readLoop, readLoop, if_neg empty, if_neg empty]
      cases turn : readTurn emit self data with
      | none => rfl
      | some outcome =>
        obtain ⟨next, rest, ret⟩ := outcome
        cases ret with
        | false => rfl
        | true =>
          have less := readTurn_weight emit empty turn
          exact ih (by omega) (by omega)

/-- **A read is one turn, and then a read of the rest.** -/
theorem read_eq (some_byte : data ≠ []) :
    gebrCommProtocolSocketRead emit self data =
      match readTurn emit self data with
      | none => none
      | some (next, rest, ret) =>
        if ret then gebrCommProtocolSocketRead emit next rest else some next := by
  unfold gebrCommProtocolSocketRead
  rw [readLoop, if_neg some_byte]
  cases turn : readTurn emit self data with
  | none => rfl
  | some outcome =>
    obtain ⟨next, rest, ret⟩ := outcome
    cases ret with
    | false => rfl
    | true =>
      have less := readTurn_weight emit some_byte turn
      have bound := weight_le self data
      exact readLoop_eq emit (by omega) (weight_le next rest)

@[simp] theorem readAll_empty (self : GebrCommProtocolSocket × ω) (reads : List Bytes) :
    readAll emit self ([] :: reads) = readAll emit self reads := rfl

/-- **Several reads are one turn, and then the reads of the rest**, or of what comes next when the
turn gives the data up. -/
theorem readAll_cons (some_byte : data ≠ []) (reads : List Bytes) :
    readAll emit self (data :: reads) =
      match readTurn emit self data with
      | none => none
      | some (next, rest, ret) => readAll emit next (if ret then rest :: reads else reads) := by
  rw [readAll, read_eq emit some_byte]
  cases turn : readTurn emit self data with
  | none => rfl
  | some outcome =>
    obtain ⟨next, rest, ret⟩ := outcome
    cases ret with
    | false => rfl
    | true => rfl

/-- **The rule for several reads**: what every turn keeps, up to the end or to a crash. -/
theorem readAll_rule {I : GebrCommProtocolSocket × ω → List Bytes → Prop}
    {result : Option (GebrCommProtocolSocket × ω) → Prop}
    (done : ∀ self, I self [] → result (some self))
    (empty : ∀ self reads, I self ([] :: reads) → I self reads)
    (turn : ∀ self data reads, data ≠ [] → I self (data :: reads) →
      match readTurn emit self data with
      | none => result none
      | some (next, rest, ret) => I next (if ret then rest :: reads else reads))
    {self : GebrCommProtocolSocket × ω} {reads : List Bytes} (start : I self reads) :
    result (readAll emit self reads) := by
  induction reads generalizing self with
  | nil => exact done self start
  | cons data reads ih =>
    -- The turns of one read, as long as they use something up.
    induction bound : weight self data using Nat.strong_induction_on generalizing self data with
    | h n inner =>
      by_cases none : data = []
      · rw [none, readAll_empty]
        exact ih (empty self reads (none ▸ start))
      · have kept := turn self data reads none start
        rw [readAll_cons emit none]
        cases step : readTurn emit self data with
        | none =>
          rw [step] at kept
          exact kept
        | some outcome =>
          obtain ⟨next, rest, ret⟩ := outcome
          rw [step] at kept
          cases ret with
          | false => exact ih kept
          | true => exact inner _ (bound ▸ readTurn_weight emit none step) rest kept rfl

end Reading

end Gebr.Comm
