/-
**A handler that takes the old messages as they come.**

A handler is called after each call of the decoder, so it finds one message at most when it takes
what it finds. It then does with each message what it would do with all of them, one after another.

* `receiveData_after`: what is queued already changes nothing for the decoder.
* `Drains`: a handler that takes the message it finds.
* `Drains.reads`: over any reads, it handles exactly the messages that would be queued, in order.
-/

import Gebr.Comm.ProtocolLag

namespace Gebr.Comm

open Gebr.Lib.CString

section Decoder

/-- The protocol with messages that were queued before. -/
def GebrCommProtocol.after (protocol : GebrCommProtocol) (queue : List GebrCommMessage) :
    GebrCommProtocol :=
  { protocol with messages := protocol.messages ++ queue }

variable (protocol : GebrCommProtocol) (queue : List GebrCommMessage) (data : Bytes)

theorem receiveArgument_after :
    receiveArgument (protocol.after queue) data =
      ((receiveArgument protocol data).1.after queue, (receiveArgument protocol data).2) := by
  unfold receiveArgument GebrCommProtocol.after
  simp only
  split <;> rfl

/-- The decoder on a header does not look at the queue. -/
theorem receiveHeader_after :
    receiveHeader (protocol.after queue) data =
      match receiveHeader protocol data with
      | .error (next, rest) => .error (next.after queue, rest)
      | .ok (next, rest) => .ok (next.after queue, rest) := by
  unfold receiveHeader GebrCommProtocol.after
  split
  · simp only
    split_ifs <;> rfl
  · rfl

theorem receiveHeader_messages :
    match receiveHeader protocol data with
    | .error (next, _) => next.messages = protocol.messages
    | .ok (next, _) => next.messages = protocol.messages := by
  rcases receiveHeader_cases protocol data with
    ⟨left, same⟩ | ⟨_, _, _, _, _, _, -, -, -, -, -, -, outcome⟩
  · rw [same]
  · rcases outcome with same | same
    · rw [same]
    · rw [same]

/-- **What is queued already changes nothing for the decoder.** -/
theorem receiveData_after :
    gebrCommProtocolReceiveData (protocol.after queue) data =
      ((gebrCommProtocolReceiveData protocol data).1.after queue,
        (gebrCommProtocolReceiveData protocol data).2) := by
  unfold gebrCommProtocolReceiveData
  simp only [receiveHeader_after, receiveArgument_after,
    show (protocol.after queue).message = protocol.message from rfl]
  split_ifs
  · rfl
  · cases receiveHeader protocol data with
    | error outcome => rfl
    | ok outcome => simp only [receiveArgument_after]
  · rfl

theorem receiveArgument_messages :
    (receiveArgument protocol data).1.messages = protocol.messages ∨
      ∃ message, (receiveArgument protocol data).1.messages = message :: protocol.messages := by
  unfold receiveArgument
  simp only
  split
  · exact Or.inr ⟨_, rfl⟩
  · exact Or.inl rfl

/-- A call of the decoder queues one message at most, and none when it fails. -/
theorem receiveData_messages (none : protocol.messages = []) :
    (gebrCommProtocolReceiveData protocol data).1.messages = [] ∨
      (gebrCommProtocolReceiveData protocol data).2.2 = true ∧
        ∃ message, (gebrCommProtocolReceiveData protocol data).1.messages = [message] := by
  have header := receiveHeader_messages protocol data
  unfold gebrCommProtocolReceiveData
  split_ifs
  · exact Or.inl none
  · cases called : receiveHeader protocol data with
    | error outcome =>
      rw [called] at header
      exact Or.inl (header.trans none)
    | ok outcome =>
      rw [called] at header
      have argument := receiveArgument_messages outcome.1 outcome.2
      rw [show outcome.1.messages = [] from header.trans none] at argument
      exact argument.imp id fun one => ⟨rfl, one⟩
  · have argument := receiveArgument_messages protocol data
    rw [none] at argument
    exact argument.imp id fun one => ⟨rfl, one⟩

end Decoder

section Handlers

variable {ω : Type}

/-- The socket once its messages are taken. -/
def drained (self : GebrCommProtocolSocket) : GebrCommProtocolSocket :=
  { self with protocol := { self.protocol with messages := [] } }

/-- The handler does nothing but to take a message it finds, when that is a good one. -/
structure Drains (emit : Handler ω) (ready : ω → Prop) (good : GebrCommMessage → Prop)
    (act : ω → GebrCommMessage → ω) : Prop where
  idle : ∀ signal, signal ≠ .oldParseMessages → ∀ self, emit signal self = self
  none : ∀ self world, ready world → emit .oldParseMessages (drained self, world) =
    (drained self, world)
  one : ∀ self world message, ready world → good message → self.protocol.messages = [message] →
    emit .oldParseMessages (self, world) = (drained self, act world message)
  keeps : ∀ world message, ready world → good message → ready (act world message)

variable {emit : Handler ω} {ready : ω → Prop} {good : GebrCommMessage → Prop}
  {act : ω → GebrCommMessage → ω} (drains : Drains emit ready good act)
  {self next : GebrCommProtocolSocket} {world : ω} {data rest : Bytes} {ret : Bool}

include drains

theorem Drains.parsed (msg : GebrCommHttpMsg) :
    httpParsed emit msg (drained self, world) =
        (drained (httpParsed quiet msg (self, ())).1, world) ∧
      (httpParsed quiet msg (self, ())).1.protocol = self.protocol := by
  unfold httpParsed
  cases msg.type with
  | unknown => exact ⟨rfl, rfl⟩
  | request =>
    simp only [drains.idle _ (show Signal.processRequest msg ≠ .oldParseMessages by simp)]
    exact ⟨rfl, rfl⟩
  | response =>
    simp only [show (drained self).requestsFifo = self.requestsFifo from rfl]
    cases fifo : self.requestsFifo with
    | nil => exact ⟨by simp only [drained, fifo], rfl⟩
    | cons request requests =>
      simp only [drains.idle _ (show Signal.processResponse request msg ≠ .oldParseMessages by simp),
        drains.idle _ (show Signal.responseReceived request msg ≠ .oldParseMessages by simp)]
      exact ⟨rfl, rfl⟩

/-- A turn on an HTTP message is the same for a handler that does not heed it. -/
theorem Drains.httpTurn (parsed : parseHttpMsg quiet (self, ()) data = some ((next, ()), rest, ret)) :
    parseHttpMsg emit (drained self, world) data = some ((drained next, world), rest, ret) ∧
      next.protocol = self.protocol := by
  unfold parseHttpMsg afterParsing at parsed ⊢
  simp only [show (drained self).incomingMsg = self.incomingMsg from rfl]
  cases called : gebrCommHttpMsgNewParsing self.incomingMsg data with
  | crash =>
    rw [called] at parsed
    exact nomatch parsed
  | null =>
    rw [called] at parsed
    obtain ⟨same, tail⟩ := Prod.mk.inj (Option.some.inj parsed)
    obtain ⟨rfl, rfl⟩ := Prod.mk.inj tail
    obtain ⟨rfl, -⟩ := Prod.mk.inj same
    exact ⟨rfl, rfl⟩
  | msg msg left =>
    rw [called] at parsed
    simp only at parsed ⊢
    split at parsed
    · rename_i unparsed
      obtain ⟨same, tail⟩ := Prod.mk.inj (Option.some.inj parsed)
      obtain ⟨rfl, rfl⟩ := Prod.mk.inj tail
      obtain ⟨rfl, -⟩ := Prod.mk.inj same
      rw [if_pos unparsed]
      exact ⟨rfl, rfl⟩
    · rename_i ended
      obtain ⟨same, tail⟩ := Prod.mk.inj (Option.some.inj parsed)
      obtain ⟨rfl, rfl⟩ := Prod.mk.inj tail
      have handled := @Drains.parsed _ _ _ _ _ drains { self with incomingMsg := some msg } world msg
      rw [same] at handled
      rw [if_neg ended]
      exact ⟨by rw [← handled.1]; rfl, handled.2⟩

/-- A turn on an old message hands over the message that it queues. -/
theorem Drains.oldTurn (isReady : ready world)
    (parsed : parseOldMsg quiet (self, ()) data = some ((next, ()), rest, ret)) :
    ∃ fresh, next.protocol.messages = fresh ++ self.protocol.messages ∧
      ((∀ message ∈ fresh, good message) → ready (fresh.reverse.foldl act world) ∧
        parseOldMsg emit (drained self, world) data =
          some ((drained next, fresh.reverse.foldl act world), rest, ret)) := by
  have split : self.protocol = (drained self).protocol.after self.protocol.messages := by
    unfold drained GebrCommProtocol.after
    simp only [List.nil_append]
  have queued := receiveData_messages (drained self).protocol data rfl
  unfold parseOldMsg at parsed ⊢
  simp only at parsed ⊢
  rw [split, receiveData_after] at parsed
  generalize gebrCommProtocolReceiveData (drained self).protocol data = outcome at queued parsed
  obtain ⟨protocol, left, ok⟩ := outcome
  simp only at queued parsed
  have same := Option.some.inj parsed
  have socket : next = { self with protocol := protocol.after self.protocol.messages } := by
    have first := (Prod.mk.inj same).1
    cases ok with
    | false => exact (Prod.mk.inj first).1.symm
    | true => exact (Prod.mk.inj first).1.symm
  obtain ⟨rfl, rfl⟩ := Prod.mk.inj (Prod.mk.inj same).2
  refine ⟨protocol.messages, by rw [socket]; rfl, fun all => ?_⟩
  have left' : drained { drained self with protocol } = drained next := by rw [socket]; rfl
  rcases queued with empty | ⟨rfl, message, one⟩
  · have taken : drained { drained self with protocol } = { drained self with protocol } := by
      unfold drained
      simp only [← empty]
    rw [empty]
    refine ⟨isReady, ?_⟩
    have called := drains.none { drained self with protocol } world isReady
    rw [taken] at called left'
    rw [← left']
    cases ok with
    | false => rfl
    | true =>
      simp only [if_true]
      rw [called]
      rfl
  · rw [one] at all ⊢
    have fine := all message List.mem_cons_self
    refine ⟨drains.keeps world message isReady fine, ?_⟩
    have called := drains.one { drained self with protocol } world message isReady fine one
    simp only [if_true]
    rw [called, left']
    rfl

/-- **A turn hands over the message that it queues**, if it queues one. -/
theorem Drains.turn (isReady : ready world)
    (turn : readTurn quiet (self, ()) data = some ((next, ()), rest, ret)) :
    ∃ fresh, next.protocol.messages = fresh ++ self.protocol.messages ∧
      ((∀ message ∈ fresh, good message) → ready (fresh.reverse.foldl act world) ∧
        readTurn emit (drained self, world) data =
          some ((drained next, fresh.reverse.foldl act world), rest, ret)) := by
  have http : parseHttpMsg quiet (self, ()) data = some ((next, ()), rest, ret) →
      ∃ fresh, next.protocol.messages = fresh ++ self.protocol.messages ∧
        ((∀ message ∈ fresh, good message) → ready (fresh.reverse.foldl act world) ∧
          parseHttpMsg emit (drained self, world) data =
            some ((drained next, fresh.reverse.foldl act world), rest, ret)) := by
    intro parsed
    have same : parseHttpMsg emit (drained self, world) data =
        some ((drained next, world), rest, ret) :=
      (drains.httpTurn parsed).1
    have kept : next.protocol = self.protocol :=
      (@Drains.httpTurn _ _ _ _ _ drains _ _ world _ _ _ parsed).2
    exact ⟨[], by rw [kept]; rfl, fun _ => ⟨isReady, same⟩⟩
  unfold readTurn turnBy at turn ⊢
  simp only [show (drained self).protocol.message = self.protocol.message from rfl,
    show (drained self).incomingMsg = self.incomingMsg from rfl]
  split_ifs at turn ⊢ with pending incoming first
  · exact drains.oldTurn isReady turn
  · exact http turn
  · exact http turn
  · exact drains.oldTurn isReady turn

/-- **Over any reads, the handler does with each message what it does with them all.** -/
theorem Drains.reads {start final : GebrCommProtocolSocket} {reads : List Bytes}
    (isReady : ready world) (quietly : readAll quiet (start, ()) reads = some (final, ()))
    (all : ∀ message ∈ final.protocol.messages, good message) :
    ∃ fresh, final.protocol.messages = fresh ++ start.protocol.messages ∧
      ready (fresh.reverse.foldl act world) ∧
      readAll emit (drained start, world) reads =
        some (drained final, fresh.reverse.foldl act world) := by
  let I : GebrCommProtocolSocket × Unit → List Bytes → Prop := fun self left =>
    (∃ message ∈ self.1.protocol.messages, ¬ good message) ∨
      ∃ fresh, self.1.protocol.messages = fresh ++ start.protocol.messages ∧
        ready (fresh.reverse.foldl act world) ∧
        readAll emit (drained start, world) reads =
          readAll emit (drained self.1, fresh.reverse.foldl act world) left
  have rule := @readAll_rule Unit quiet I
    (fun out => ∀ final, out = some (final, ()) → (∀ message ∈ final.protocol.messages, good message) →
      ∃ fresh, final.protocol.messages = fresh ++ start.protocol.messages ∧
        ready (fresh.reverse.foldl act world) ∧
        readAll emit (drained start, world) reads =
          some (drained final, fresh.reverse.foldl act world)) ?_ ?_ ?_ (start, ()) reads ?_
  · exact rule final quietly all
  · intro self kept last same fine
    obtain rfl := Option.some.inj same
    rcases kept with ⟨message, member, bad⟩ | kept
    · exact absurd (fine message member) bad
    · exact kept
  · intro self left kept
    exact kept
  · intro self bytes left some_byte kept
    cases turn : readTurn quiet self bytes with
    | none => exact fun _ same => nomatch same
    | some outcome =>
      obtain ⟨⟨after, _⟩, tail, ok⟩ := outcome
      rcases kept with ⟨message, member, bad⟩ | ⟨fresh, queue, isReady', same⟩
      · obtain ⟨more, grown, -⟩ := drains.turn isReady turn
        refine Or.inl ⟨message, ?_, bad⟩
        rw [grown]
        exact List.mem_append_right more member
      · obtain ⟨more, grown, handed⟩ := drains.turn isReady' turn
        by_cases fine : ∀ message ∈ more, good message
        · obtain ⟨isReady'', handed⟩ := handed fine
          refine Or.inr ⟨more ++ fresh, ?_, ?_, ?_⟩
          · rw [grown, queue, List.append_assoc]
          · rw [List.reverse_append, List.foldl_append]
            exact isReady''
          · rw [same, readAll_cons emit some_byte, handed, List.reverse_append, List.foldl_append]
        · obtain ⟨message, found⟩ := not_forall.1 fine
          obtain ⟨member, bad⟩ := Classical.not_imp.1 found
          refine Or.inl ⟨message, ?_, bad⟩
          rw [grown]
          exact List.mem_append_left _ member
  · exact Or.inr ⟨[], rfl, isReady, rfl⟩

end Handlers

end Gebr.Comm
