/-
**Old messages that are lost for good.**

Once a cut has made the decoder drop bytes, or take a size for what it is not, the messages are not
decoded any more, whatever the later cuts are.

* `Lost`: the four ways to be lost, as a property of the decoder and of the bytes still to come.
* `receiveHeader_cases`: the decoder on a header.
* `Lost.receiveArgument`, `Lost.receiveHeader`: a step of the decoder keeps it lost.
* `Lost.readTurn`: so does a turn of the socket.
-/

import Gebr.Comm.ProtocolStream

namespace Gebr.Comm

open Gebr.Lib.CString

section Definition

/-- The decoder and the bytes to come do not make the messages any more. -/
inductive Lost (msgs : List OldMessage) (protocol : GebrCommProtocol) (bytes : Bytes) : Prop
  /-- Another message is queued. -/
  | wrong (other : ¬ protocol.messages <:+ (msgs.map OldMessage.received).reverse)
  /-- No message is pending, and bytes of the next one are gone. -/
  | late {done m todo} (split : msgs = done ++ m :: todo)
      (kept : protocol.messages = (done.map OldMessage.received).reverse)
      (fresh : protocol.message = gebrCommMessageNew) (tail : bytes <:+ stream (m :: todo))
      (fewer : bytes.length < (stream (m :: todo)).length)
  /-- The next message is pending, and bytes of it or of a later one are gone. -/
  | behind {done m todo} (split : msgs = done ++ m :: todo)
      (kept : protocol.messages = (done.map OldMessage.received).reverse)
      (pending : protocol.message.hash ≠ 0)
      (size : protocol.message.argumentSize = m.argument.length)
      (fits : protocol.message.argument.length ≤ m.argument.length)
      (tail : bytes <:+ stream (m :: todo))
      (fewer : bytes.length + protocol.message.argument.length <
        m.argument.length + 1 + (stream todo).length)
  /-- The message that is pending is not the next one. -/
  | doomed {done m todo} (split : msgs = done ++ m :: todo)
      (kept : protocol.messages = (done.map OldMessage.received).reverse)
      (pending : protocol.message.hash ≠ 0)
      (other : ∀ text, text <+: bytes →
        { protocol.message with argument := protocol.message.argument ++ text } ≠ m.received)

variable {msgs done todo : List OldMessage} {m : OldMessage} {protocol : GebrCommProtocol}

/-- What is lost at the end is not decoded. -/
theorem Lost.not_queued (lost : Lost msgs protocol []) : protocol ≠ (queued msgs).protocol := by
  rintro rfl
  cases lost with
  | wrong other => exact other (List.suffix_refl _)
  | late split kept fresh tail fewer =>
    have lengths := congrArg List.length kept
    simp only [queued, List.length_reverse, List.length_map, split, List.length_append,
      List.length_cons] at lengths
    omega
  | behind split kept pending size fits tail fewer => exact pending rfl
  | doomed split kept pending other => exact pending rfl

/-- Bytes may be dropped in front of a message. -/
theorem Lost.suffix {bytes rest : Bytes} (lost : Lost msgs protocol bytes)
    (new : protocol.message.hash = 0) (suffix : rest <:+ bytes) : Lost msgs protocol rest := by
  cases lost with
  | wrong other => exact .wrong other
  | late split kept fresh tail fewer =>
    exact .late split kept fresh (suffix.trans tail) (lt_of_le_of_lt suffix.length_le fewer)
  | behind split kept pending size fits tail fewer => exact absurd new pending
  | doomed split kept pending other => exact absurd new pending

/-- A message that is not the next one is a wrong one. -/
theorem wrong_of_ne (split : msgs = done ++ m :: todo) {message : GebrCommMessage}
    (other : message ≠ m.received) :
    ¬ message :: (done.map OldMessage.received).reverse <:+
    (msgs.map OldMessage.received).reverse := by
  rintro ⟨front, same⟩
  rw [split, List.map_append, List.map_cons, List.reverse_append, List.reverse_cons,
    List.append_assoc, List.singleton_append] at same
  have parts := List.append_inj_right' same rfl
  exact other (List.cons.inj parts).1

end Definition

section Argument

variable {msgs : List OldMessage} {protocol : GebrCommProtocol} {data later : Bytes}

/-- **A step on an argument keeps the decoder lost.** -/
theorem Lost.receiveArgument (lost : Lost msgs protocol (data ++ later))
    (pending : protocol.message.hash ≠ 0) :
    Lost msgs (receiveArgument protocol data).1 ((receiveArgument protocol data).2 ++ later) := by
  unfold Comm.receiveArgument
  simp only
  generalize counted : protocol.message.argumentSize - protocol.message.argument.length = missing
  split
  · rename_i complete
    cases lost with
    | wrong other => exact .wrong fun kept => other ((List.suffix_cons _ _).trans kept)
    | late split kept fresh tail fewer => exact absurd (by rw [fresh]; rfl) pending
    | @behind done m todo split kept _ size fits tail fewer =>
      rw [size] at counted
      rw [List.length_append] at fewer
      -- The message ends before the bytes do, so there is one more to come.
      have short : (data.drop (missing + 1) ++ later).length < (stream todo).length := by
        rw [List.length_append, List.length_drop]
        omega
      have rest : data.drop (missing + 1) ++ later <:+ stream todo := by
        refine List.suffix_of_suffix_length_le (List.IsSuffix.trans ?_ tail)
          (List.suffix_append m.toBytes (stream todo)) short.le
        exact ⟨_, by rw [← List.append_assoc, List.take_append_drop]⟩
      by_cases same : { protocol.message with
          argument := protocol.message.argument ++ data.take missing } = m.received
      · cases todo with
        | nil => exact absurd short (Nat.not_lt_zero _)
        | cons next todo =>
          have split' : msgs = (done ++ [m]) ++ next :: todo := by
            rw [split, List.append_assoc, List.singleton_append]
          refine .late split' ?_ rfl rest short
          show { protocol.message with argument := protocol.message.argument ++ data.take missing } ::
            protocol.messages = _
          rw [same, kept, List.map_append, List.reverse_append]
          rfl
      · rw [kept]
        exact .wrong (wrong_of_ne split same)
    | doomed split kept _ other =>
      rw [kept]
      refine .wrong (wrong_of_ne split (other _ ?_))
      exact (List.take_prefix _ data).trans (List.prefix_append data later)
  · rename_i incomplete
    cases lost with
    | wrong other => exact .wrong other
    | late split kept fresh tail fewer => exact absurd (by rw [fresh]; rfl) pending
    | behind split kept _ size fits tail fewer =>
      rw [size] at counted
      rw [List.length_append] at fewer
      refine .behind split kept pending size ?_ ((List.suffix_append data later).trans tail) ?_
      · simp only [List.length_append]
        omega
      · simp only [List.length_append, List.nil_append]
        omega
    | doomed split kept _ other =>
      refine .doomed split kept pending fun text front => ?_
      simp only [List.append_assoc]
      exact other _ ((List.prefix_append_right_inj data).2 front)

end Argument

section Header

variable (protocol : GebrCommProtocol) (data : Bytes)

/-- **The decoder on a header** changes nothing, or sets the header that is in front of the data. -/
theorem receiveHeader_cases :
    (∃ left, receiveHeader protocol data = .error (protocol, left)) ∨
      ∃ token size code ret erange k, token ++ 32 :: size <+: data ∧ 32 ∉ token ∧
        token.length + 1 + size.length ≤ k ∧ splitRet token = (code, ret) ∧ code ∈ registered ∧
        (∀ r ∈ ret, r ∈ registered) ∧
        let next := { protocol with
          message := { protocol.message with
            hash := gStrHash code
            retHash := (ret.map gStrHash).or protocol.message.retHash
            argumentSize := toSize (strtol size).1 }
          erange := erange }
        receiveHeader protocol data = .error (next, data) ∨
          receiveHeader protocol data = .ok (next, data.drop k) := by
  rcases eq_clean_or_cut 32 data with clean | ⟨token, tail, clean, rfl⟩
  · left
    refine ⟨data, ?_⟩
    unfold receiveHeader
    by_cases empty : data = []
    · rw [empty, gStrsplit, if_pos rfl]
    · rw [gStrsplit_one clean empty]
  · have shape : ∃ size rest, gStrsplit 32 3 (token ++ 32 :: tail) = token :: size :: rest ∧
        size <+: tail := by
      rcases eq_clean_or_cut 32 tail with clean' | ⟨size, rest, clean', rfl⟩
      · exact ⟨tail, [], gStrsplit_two clean clean', List.prefix_refl _⟩
      · exact ⟨size, [rest], gStrsplit_three clean clean' rest, List.prefix_append _ _⟩
    obtain ⟨size, rest, tokens, begins⟩ := shape
    obtain ⟨code, ret, parts⟩ : ∃ code ret, splitRet token = (code, ret) := ⟨_, _, rfl⟩
    have lengths : token.length = code.length + (ret.map fun r => r.length + 1).getD 0 := by
      rcases splitRet_join token with ⟨-, plain⟩ | ⟨front, answer, both, whole⟩
      · obtain ⟨rfl, rfl⟩ := Prod.mk.inj (parts.symm.trans plain)
        rfl
      · obtain ⟨rfl, rfl⟩ := Prod.mk.inj (parts.symm.trans both)
        rw [whole, List.length_append, List.length_cons]
        rfl
    unfold receiveHeader
    rw [tokens]
    simp only [parts]
    by_cases known : code ∈ registered
    · rw [if_neg (not_not.2 known)]
      by_cases known' : ∃ r ∈ ret, r ∉ registered
      · rw [if_pos known']
        exact Or.inl ⟨[], rfl⟩
      · rw [if_neg known']
        right
        refine ⟨token, size, code, ret, protocol.erange || (strtol size).2,
          code.length + 1 + size.length + (if rest = [] then 0 else 1) +
            (ret.map fun r => r.length + 1).getD 0, ?_, clean, by omega, parts, known, ?_, ?_⟩
        · exact (List.prefix_append_right_inj token).2 (List.cons_prefix_cons.2 ⟨rfl, begins⟩)
        · intro r member
          by_contra unknown
          exact known' ⟨r, member, unknown⟩
        · split
          · exact Or.inl rfl
          · exact Or.inr rfl
    · rw [if_pos known]
      exact Or.inl ⟨[], rfl⟩

end Header

section Late

variable {msgs done todo : List OldMessage} {m : OldMessage} {protocol : GebrCommProtocol}
  {data later rest bytes : Bytes}

/-- A head that is found where bytes are gone is not the one of the next message: that whole one is
gone. -/
theorem head_gone {tail : Bytes} (suffix : m.head ++ 32 :: tail <:+ stream (m :: todo))
    (fewer : (m.head ++ 32 :: tail).length < (stream (m :: todo)).length) :
    (m.head ++ 32 :: tail).length + m.head.length + 1 ≤ (stream (m :: todo)).length := by
  obtain ⟨front, same⟩ := suffix
  have lengths := congrArg List.length same
  rw [List.length_append] at lengths
  by_contra close
  -- What is gone is a part of the head, and the rest of it has no space.
  have within : front <+: m.head := by
    have short : front.length ≤ m.head.length := by omega
    have begins : m.head <+: stream (m :: todo) := by
      rw [stream_cons, m.toBytes_eq]
      exact (List.prefix_append _ _).trans (List.prefix_append _ _)
    exact List.prefix_of_prefix_length_le ⟨_, same⟩ begins short
  obtain ⟨back, split⟩ := within
  have clean : 32 ∉ back := fun member => m.head_clean (split ▸ List.mem_append_right _ member)
  rw [stream_cons, m.toBytes_eq, ← split] at same
  simp only [List.append_assoc, List.append_cancel_left_eq, List.cons_append] at same
  have words : m.head = back := by
    rw [← takeWhile_ne m.head_clean tail, ← takeWhile_ne clean _, ← same, ← split]
    simp only [List.append_assoc]
  have equal := congrArg List.length split
  rw [List.length_append, ← words] at equal
  have empty : front.length = 0 := by omega
  omega

/-- Where bytes are gone, a header that is set is behind, or is another one. -/
theorem Lost.headed (split : msgs = done ++ m :: todo)
    (kept : protocol.messages = (done.map OldMessage.received).reverse)
    (tail : bytes <:+ stream (m :: todo)) (fewer : bytes.length < (stream (m :: todo)).length)
    {token size code : Bytes} {ret : Option Bytes} (front : token ++ 32 :: size <+: bytes)
    (parts : splitRet token = (code, ret)) (known : code ∈ registered)
    (known' : ∀ r ∈ ret, r ∈ registered) (erange : Bool) (suffix : rest <:+ bytes)
    (used : rest.length + token.length + 1 + size.length ≤ bytes.length) :
    Lost msgs { protocol with
      message := ⟨gStrHash code, ret.map gStrHash, toSize (strtol size).1, []⟩, erange } rest := by
  have pending : gStrHash code ≠ 0 := (registered_clean known).2.2
  by_cases same : gStrHash code = m.received.hash ∧ ret.map gStrHash = m.received.retHash ∧
      toSize (strtol size).1 = m.received.argumentSize
  · obtain ⟨hash, ret', length⟩ := same
    have head : token = m.head := m.head_of_hashes parts known known' hash ret'
    obtain ⟨after, rfl⟩ := front
    rw [head, List.append_assoc, List.cons_append] at tail fewer used
    have gone := head_gone tail fewer
    have digits : m.size.length ≤ size.length + 1 := by
      have room := m.fits
      have less := lt_pow_of_strtol length (show m.argument.length < 2 ^ 63 by
        unfold OldMessage.argument
        omega)
      apply length_decimal_le (lt_of_lt_of_le less _) (Nat.succ_pos _)
      exact Nat.pow_le_pow_right (by decide) (Nat.le_succ _)
    have long := m.two_le_head
    have whole := m.length_toBytes
    refine .behind split kept pending length (Nat.zero_le _) (suffix.trans ?_) ?_
    · rw [head, List.append_assoc, List.cons_append]
      exact tail
    · have total : (stream (m :: todo)).length = m.toBytes.length + (stream todo).length := by
        rw [stream_cons, List.length_append]
      simp only [List.length_nil]
      omega
  · refine .doomed split kept pending fun text _ equal => same ?_
    rw [← equal]
    exact ⟨rfl, rfl, rfl⟩

/-- **A step on a header keeps the decoder lost.** -/
theorem Lost.receiveHeader (lost : Lost msgs protocol (data ++ later))
    (new : protocol.message.hash = 0) :
    match receiveHeader protocol data with
    | .error (next, _) => Lost msgs next later
    | .ok (next, rest) => Lost msgs next (rest ++ later) ∧ next.message.hash ≠ 0 := by
  rcases receiveHeader_cases protocol data with ⟨left, same⟩ |
    ⟨token, size, code, ret, erange, k, front, clean, used, parts, known, known', outcome⟩
  · rw [same]
    exact lost.suffix new (List.suffix_append data later)
  · have bound : token.length + 1 + size.length ≤ data.length := by
      have length := front.length_le
      rw [List.length_append, List.length_cons] at length
      omega
    have pending : gStrHash code ≠ 0 := (registered_clean known).2.2
    have lost' : ∀ rest, rest <:+ data ++ later →
        rest.length + token.length + 1 + size.length ≤ (data ++ later).length →
        Lost msgs { protocol with
          message := { protocol.message with
            hash := gStrHash code
            retHash := (ret.map gStrHash).or protocol.message.retHash
            argumentSize := toSize (strtol size).1 }
          erange := erange } rest := by
      intro rest suffix used
      cases lost with
      | wrong other => exact .wrong other
      | late split kept fresh tail fewer =>
        have headed := Lost.headed split kept tail fewer (front.trans (List.prefix_append _ _)) parts
          known known' erange suffix used
        rw [fresh]
        simp only [gebrCommMessageNew, Option.or_none]
        exact headed
      | behind split kept pending size fits tail fewer => exact absurd new pending
      | doomed split kept pending other => exact absurd new pending
    rcases outcome with same | same
    · rw [same]
      refine lost' later (List.suffix_append data later) ?_
      rw [List.length_append]
      omega
    · rw [same]
      refine ⟨lost' _ ⟨data.take k, ?_⟩ ?_, pending⟩
      · rw [← List.append_assoc, List.take_append_drop]
      · rw [List.length_append, List.length_append, List.length_drop]
        omega

theorem Lost.receiveData (lost : Lost msgs protocol (data ++ later)) {next : GebrCommProtocol}
    {ret : Bool} (received : gebrCommProtocolReceiveData protocol data = (next, rest, ret)) :
    Lost msgs next ((if ret then rest else []) ++ later) := by
  unfold gebrCommProtocolReceiveData at received
  split_ifs at received with empty new
  · obtain ⟨rfl, tail⟩ := Prod.mk.inj received
    obtain ⟨rfl, rfl⟩ := Prod.mk.inj tail
    exact lost
  · have header := lost.receiveHeader new
    split at received
    · rename_i protocol' left same
      obtain ⟨rfl, tail⟩ := Prod.mk.inj received
      obtain ⟨-, rfl⟩ := Prod.mk.inj tail
      rw [same] at header
      exact header
    · rename_i protocol' left same
      rw [same] at header
      obtain ⟨rfl, tail⟩ := Prod.mk.inj received
      obtain ⟨rfl, rfl⟩ := Prod.mk.inj tail
      exact header.1.receiveArgument header.2
  · obtain ⟨rfl, tail⟩ := Prod.mk.inj received
    obtain ⟨rfl, rfl⟩ := Prod.mk.inj tail
    exact lost.receiveArgument new

end Late

section Turn

variable {msgs : List OldMessage} {self next : GebrCommProtocolSocket × Unit} {data later rest : Bytes}
  {ret : Bool}

theorem httpParsed_quiet_protocol (msg : GebrCommHttpMsg) (self : GebrCommProtocolSocket × Unit) :
    (httpParsed quiet msg self).1.protocol = self.1.protocol := by
  unfold httpParsed
  simp only [quiet]
  cases msg.type with
  | unknown => rfl
  | request => rfl
  | response =>
    cases fifo : self.1.requestsFifo with
    | nil => rfl
    | cons request requests => rfl

theorem parseHttpMsg_frame (parsed : parseHttpMsg quiet self data = some (next, rest, ret)) :
    next.1.protocol = self.1.protocol ∧ rest <:+ data := by
  rcases parseHttpMsg_cases quiet parsed with ⟨-, rfl, rfl⟩ | ⟨msg, called, -, left⟩
  · exact ⟨rfl, List.suffix_refl _⟩
  have suffix := newParsing_suffix called
  rcases left with ⟨-, rfl⟩ | ⟨-, rfl⟩
  · exact ⟨rfl, suffix⟩
  · exact ⟨httpParsed_quiet_protocol msg _, suffix⟩

/-- **A turn of the socket keeps the decoder lost.** -/
theorem Lost.readTurn (lost : Lost msgs self.1.protocol (data ++ later))
    (turn : readTurn quiet self data = some (next, rest, ret)) :
    Lost msgs next.1.protocol ((if ret then rest else []) ++ later) := by
  have http : self.1.protocol.message.hash = 0 → parseHttpMsg quiet self data =
      some (next, rest, ret) → Lost msgs next.1.protocol ((if ret then rest else []) ++ later) := by
    intro new parsed
    obtain ⟨kept, suffix⟩ := parseHttpMsg_frame parsed
    rw [kept]
    refine lost.suffix new ?_
    obtain ⟨front, rfl⟩ := suffix
    cases ret with
    | false => exact List.suffix_append _ later
    | true => exact ⟨front, by simp only [if_true, List.append_assoc]⟩
  have old : parseOldMsg quiet self data = some (next, rest, ret) →
      Lost msgs next.1.protocol ((if ret then rest else []) ++ later) := by
    intro parsed
    obtain ⟨protocol, received, same⟩ := parseOldMsg_cases quiet parsed
    have kept : next.1.protocol = protocol := by
      rw [same]
      cases ret <;> rfl
    rw [kept]
    exact lost.receiveData received
  unfold Comm.readTurn turnBy at turn
  split_ifs at turn with pending incoming first
  · exact old turn
  · exact http (not_not.1 pending) turn
  · exact http (not_not.1 pending) turn
  · exact old turn

end Turn

end Gebr.Comm
