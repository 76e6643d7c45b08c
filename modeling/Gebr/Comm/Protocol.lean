/-
**The old messages of a protocol socket.**

A message is `CODE size argument` and a line feed; the answer to one is `RET:CODE size argument`.
The argument holds parameters, each with its own size.

* `registered`: the codes, and the two tables that map texts and hashes to them.
* `gebrCommProtocolBuildAnyMessagev`: a message of some parameters.
* `gebrCommProtocolReceiveData`: one call of the decoder; it queues at most one message.
* `splitNew`, `gebrCommProtocolSplitNew`: an argument taken apart, with what is misused on the way.
* `splitNew_length`, `splitNew_stale`: how many parts there are, and what does not matter for them.

Bytes are never zero. `errno` is what `strtol` leaves in it.
-/

import Gebr.Comm.HttpMsg

namespace Gebr.Comm

open Gebr.Lib.CString

section Definitions

/-- The codes `gebr_comm_protocol_init` registers, in its order. -/
def registered : List Bytes :=
  ["RET", "ERR", "INI", "QUT", "LST", "JOB", "RUN", "RNQ", "FLW", "CLR", "END", "JCL", "KIL", "OUT",
    "STA", "GID", "PRT", "SST", "SRM", "CFRM", "PATH", "HOME", "NFS", "MPI", "AC", "AGRP", "GGRP",
    "TSK", "ISS", "CMD", "PSS", "QST", "HRK", "DSP", "SFTP"].map ascii

def retCode : Bytes := ascii "RET"

def sftpCode : Bytes := ascii "SFTP"

/-- `g_hash_table_lookup` in `code_hash_table`. -/
def codeOfHash (hash : ℕ) : Option Bytes := registered.find? fun code => gStrHash code = hash

/-- `struct gebr_comm_message`. The memory of `ret_hash` is not initialised: `none` until it is
written. -/
structure GebrCommMessage where
  hash : ℕ
  retHash : Option ℕ
  argumentSize : ℕ
  argument : Bytes
  deriving DecidableEq, Repr

/-- `struct gebr_comm_protocol`: the message being received, and those received, the last one
first; `erange` is whether `errno` is `ERANGE`. -/
structure GebrCommProtocol where
  message : GebrCommMessage
  messages : List GebrCommMessage
  erange : Bool
  deriving DecidableEq, Repr

/-- `gebr_comm_message_new`. -/
def gebrCommMessageNew : GebrCommMessage := ⟨0, none, 0, []⟩

/-- `gebr_comm_protocol_new`. -/
def gebrCommProtocolNew : GebrCommProtocol := ⟨gebrCommMessageNew, [], false⟩

end Definitions

section Building

/-- The parameters of a message, each after its length; a `NULL` is an empty text. -/
def joinParams : List (Option Bytes) → Bytes
  | [] => []
  | [param] =>
    let param := param.getD []
    decimal param.length ++ 124 :: param
  | param :: params =>
    let param := param.getD []
    decimal param.length ++ 124 :: param ++ 32 :: joinParams params

/-- `gebr_comm_protocol_build_any_messagev`. -/
def gebrCommProtocolBuildAnyMessagev (code : Bytes) (isReturn : Bool) (params : List (Option Bytes)) :
    Bytes :=
  let data := joinParams params
  let head := if isReturn = false then code else retCode ++ 58 :: code
  head ++ 32 :: decimal data.length ++ 32 :: data ++ [10]

end Building

section Receiving

/-- The first token, cut at its last colon: what is before it, and what is after it. -/
def splitRet (token : Bytes) : Bytes × Option Bytes :=
  let tail := token.reverse.takeWhile (· ≠ 58)
  if tail.length = token.length then (token, none)
  else (token.take (token.length - tail.length - 1), some tail.reverse)

/-- The decoder on the header of a message. `error` is the way to `err`, with what is left of the
data; otherwise the data after the header. -/
def receiveHeader (protocol : GebrCommProtocol) (data : Bytes) :
    Except (GebrCommProtocol × Bytes) (GebrCommProtocol × Bytes) :=
  match gStrsplit 32 3 data with
  | first :: size :: rest =>
    let (code, retMsg) := splitRet first
    if code ∉ registered then .error (protocol, [])
    else if ∃ ret ∈ retMsg, ret ∉ registered then .error (protocol, [])
    else
      let (argumentSize, overflow) := strtol size
      let message := { protocol.message with
        hash := gStrHash code
        retHash := (retMsg.map gStrHash).or protocol.message.retHash
        argumentSize := toSize argumentSize }
      let protocol := { protocol with message, erange := protocol.erange || overflow }
      if protocol.erange then .error (protocol, data)
      else
        let eraseLen := code.length + 1 + size.length + (if rest = [] then 0 else 1) +
          (retMsg.map fun ret => ret.length + 1).getD 0
        .ok (protocol, data.drop eraseLen)
  | _ => .error (protocol, data)

/-- The decoder on the argument of a message: it is complete once there is a byte more. -/
def receiveArgument (protocol : GebrCommProtocol) (data : Bytes) : GebrCommProtocol × Bytes :=
  let missing := protocol.message.argumentSize - protocol.message.argument.length
  if missing < data.length then
    let queued := { protocol.message with argument := protocol.message.argument ++ data.take missing }
    ({ protocol with message := gebrCommMessageNew, messages := queued :: protocol.messages },
      data.drop (missing + 1))
  else
    let message := { protocol.message with argument := protocol.message.argument ++ data }
    ({ protocol with message }, [])

/-- `gebr_comm_protocol_receive_data`: its loop turns once, for it either ends the message or uses
up the data. -/
def gebrCommProtocolReceiveData (protocol : GebrCommProtocol) (data : Bytes) :
    GebrCommProtocol × Bytes × Bool :=
  if data = [] then (protocol, data, true)
  else if protocol.message.hash = 0 then
    match receiveHeader protocol data with
    | .error (protocol, data) => (protocol, data, false)
    | .ok (protocol, data) =>
      let (protocol, data) := receiveArgument protocol data
      (protocol, data, true)
  else
    let (protocol, data) := receiveArgument protocol data
    (protocol, data, true)

theorem receiveArgument_length_lt (protocol : GebrCommProtocol) {data : Bytes}
    (some_byte : data ≠ []) : (receiveArgument protocol data).2.length < data.length := by
  have positive := List.length_pos_iff.2 some_byte
  unfold receiveArgument
  simp only
  split
  · rw [List.length_drop]
    omega
  · exact positive

theorem receiveArgument_length_le (protocol : GebrCommProtocol) (data : Bytes) :
    (receiveArgument protocol data).2.length ≤ data.length := by
  by_cases empty : data = []
  · rw [empty]
    exact le_rfl
  · exact (receiveArgument_length_lt protocol empty).le

/-- The decoder on a header takes it off the data. -/
theorem receiveHeader_length_lt {protocol next : GebrCommProtocol} {data rest : Bytes}
    (some_byte : data ≠ []) (header : receiveHeader protocol data = .ok (next, rest)) :
    rest.length < data.length := by
  have positive := List.length_pos_iff.2 some_byte
  unfold receiveHeader at header
  split at header
  · simp only at header
    split_ifs at header
    all_goals
      obtain ⟨-, rfl⟩ := Prod.mk.inj (Except.ok.inj header)
      rw [List.length_drop]
      omega
  · exact nomatch header

/-- **A call of the decoder that succeeds uses up a byte at least.** -/
theorem receiveData_length_lt {protocol next : GebrCommProtocol} {data rest : Bytes}
    (some_byte : data ≠ [])
    (received : gebrCommProtocolReceiveData protocol data = (next, rest, true)) :
    rest.length < data.length := by
  rw [gebrCommProtocolReceiveData, if_neg some_byte] at received
  split at received
  · split at received
    · cases received
    · rename_i protocol' data' header
      obtain ⟨-, tail⟩ := Prod.mk.inj received
      obtain ⟨rfl, -⟩ := Prod.mk.inj tail
      exact lt_of_le_of_lt (receiveArgument_length_le _ _) (receiveHeader_length_lt some_byte header)
  · obtain ⟨-, tail⟩ := Prod.mk.inj received
    obtain ⟨rfl, -⟩ := Prod.mk.inj tail
    exact receiveArgument_length_lt protocol some_byte

end Receiving

section Splitting

/-- What the splitter uses although it is not there. -/
inductive Misuse where
  /-- `strchr` found no separator: the text behind it is read through `NULL`. -/
  | separator
  /-- `sscanf` read no number: `arg_size` was never set. -/
  | unset
  /-- The number has a minus in front of it, or something else behind it. -/
  | notALength
  deriving DecidableEq, Repr

/-- `ULONG_MAX`. -/
def ulongMax : ℕ := 2 ^ 64 - 1

/-- The number of `%zu`. With a minus it is negated, and beyond the range it is the largest one.
Without a minus a number beyond the range is more than any text is long, as is the largest one. -/
def scanNumber (negative : Bool) (digits : Bytes) : ℕ :=
  if negative = false then value digits
  else if ulongMax < value digits then ulongMax
  else toSize (-(value digits : ℤ))

/-- The number that `sscanf` reads at the front of a text, without a sign the text after it, `none`
for no digit. -/
def scanLength (iarg : Bytes) : Option (ℕ × Option Bytes) :=
  let (negative, s) := takeSign (iarg.dropWhile isSpace)
  let digits := s.takeWhile isDigit
  if digits = [] then none
  else some (scanNumber negative digits, if negative then none else some (s.dropWhile isDigit))

/-- What is misused of a number that was read, or was not, with a text behind its separator. A
number that is too large for the text is not used. -/
def misused (sep : Bytes) : Option (ℕ × Option Bytes) → List Misuse
  | none => [.unset]
  | some (argSize, after) =>
    if sep.length < argSize ∨ after = some (124 :: sep) then [] else [.notALength]

/-- `gebr_comm_protocol_split_new`: what it misuses on the way, and what it gives. `stale` is what a
failed `sscanf` leaves in the size; a read through `NULL` gives no list either. -/
def splitNew (stale : ℕ) : ℕ → Bytes → List Misuse × Option (List Bytes)
  | 0, _ => ([], some [])
  | parts + 1, iarg =>
    if iarg.dropWhile isSpace = [] then ([], none)
    else
      match iarg.dropWhile (· ≠ 124) with
      | [] => ([.separator], none)
      | _ :: sep =>
        let read := scanLength iarg
        let argSize := (read.map Prod.fst).getD stale
        if sep.length < argSize then (misused sep read, none)
        else if parts = 0 then (misused sep read, some [sep.take argSize])
        else
          match sep.drop argSize with
          | [] => (misused sep read, none)
          | [_] => (misused sep read, none)
          | _ :: iarg =>
            let (later, split) := splitNew stale parts iarg
            (misused sep read ++ later, split.map (sep.take argSize :: ·))

/-- `gebr_comm_protocol_split_new`, as its callers see it. -/
def gebrCommProtocolSplitNew (stale parts : ℕ) (iarg : Bytes) : Option (List Bytes) :=
  (splitNew stale parts iarg).2

/-- A list that is given has as many parts as were asked for. -/
theorem splitNew_length {stale parts : ℕ} {iarg : Bytes} {list : List Bytes}
    (split : gebrCommProtocolSplitNew stale parts iarg = some list) : list.length = parts := by
  induction parts generalizing iarg list with
  | zero =>
    obtain rfl := Option.some.inj split
    rfl
  | succ parts ih =>
    rw [gebrCommProtocolSplitNew, splitNew] at split
    split at split
    · cases split
    · split at split
      · cases split
      · dsimp only at split
        split at split
        · cases split
        · split at split
          · rename_i last
            obtain rfl := Option.some.inj split
            rw [last]
            rfl
          · split at split
            · cases split
            · cases split
            · obtain ⟨rest, further, rfl⟩ := Option.map_eq_some_iff.1 split
              rw [List.length_cons, ih further]

/-- **Without a misuse** it does not matter what a failed `sscanf` would leave in the size. -/
theorem splitNew_stale {stale parts : ℕ} {iarg : Bytes} (clean : (splitNew 0 parts iarg).1 = []) :
    splitNew stale parts iarg = splitNew 0 parts iarg := by
  induction parts generalizing iarg with
  | zero => rfl
  | succ parts ih =>
    rw [splitNew] at clean ⊢
    rw [splitNew]
    by_cases blank : iarg.dropWhile isSpace = []
    · rw [if_pos blank, if_pos blank]
    rw [if_neg blank] at clean
    rw [if_neg blank, if_neg blank]
    cases behind : iarg.dropWhile (· ≠ 124) with
    | nil => rfl
    | cons b sep =>
      rw [behind] at clean
      cases read : scanLength iarg with
      | none =>
        -- Every branch has the misuse.
        rw [read] at clean
        dsimp only [misused] at clean
        split_ifs at clean
        split at clean
        all_goals cases clean
      | some number =>
        rw [read] at clean
        dsimp only [Option.map_some, Option.getD_some] at clean ⊢
        split_ifs at clean ⊢ with exceeds last
        · rfl
        · rfl
        · rcases rest : sep.drop number.1 with _ | ⟨c, _ | ⟨c', iarg⟩⟩
          · rfl
          · rfl
          · rw [rest] at clean
            dsimp only at clean ⊢
            rw [ih (List.append_eq_nil_iff.1 clean).2]

end Splitting

end Gebr.Comm
