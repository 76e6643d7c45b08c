/-
**The log of the interface, over its sessions.**

A message is shown in the log window and appended to a file as a line: its kind, the date and the
text. The clock is read once for the window and once for the file. The next session reads the file
line by line, and shows what it reads.

* `gebrLogAddMessage`, `gebrLogMessagesRead`: what is written, and what is read; a line that begins
  as an entry but is none ends the program.
* `reread`: a message as the next session shows it, with the date of the file.
* `parseLine_entry`: an entry that is one line is read as it was written.
* `read_add`: the line breaks of a GLib channel cut a message, and what is behind the first of them
  is read on its own.
* `load_iff`: a file of entries is read as they were shown, just when no message that is shown has a
  line break.
* `reload_iff` — **after any sessions, the next one shows all that was logged**, just when no
  message had a line break.
-/

import Gebr.Lib.Channel
import Gebr.Lib.Run
import Gebr.Lib.SeparatedList
import Mathlib.Data.Bool.AllAny

namespace Gebr.Interface.LogFile

open Gebr.Lib
open Gebr.Lib.Channel
open Gebr.Lib.CString
open Gebr.Lib.LineBreaks

section Model

/-- `GebrLogMessageType`; `finish` is `GEBR_LOG_END`. -/
inductive GebrLogMessageType where
  | start
  | finish
  | info
  | error
  | warning
  | debug
  | msg
  deriving DecidableEq, Repr

/-- `GebrLogMessage`. -/
structure GebrLogMessage where
  type : GebrLogMessageType
  date : List UInt8
  message : List UInt8
  deriving DecidableEq, Repr

/-- A date as `gebr_iso_date` gives it: digits, and the marks of ISO 8601. -/
structure IsoDate where
  text : List UInt8
  plain : ∀ b ∈ text, isDigit b = true ∨ b ∈ ascii "-:.TZ"

/-- A C string in UTF-8, as GTK shows it. -/
structure CText where
  text : List UInt8
  terminated : 0 ∉ text
  valid : Utf8.validate text = true

/-- `ident_str` of `gebr_log_add_message`; without `DEBUG` nothing is written for a debug
message. -/
def identStr : GebrLogMessageType → Option (List UInt8)
  | .start => some (ascii "[STR]")
  | .finish => some (ascii "[END]")
  | .info => some (ascii "[INFO]")
  | .error => some (ascii "[ERR]")
  | .warning => some (ascii "[WARN]")
  | .debug => none
  | .msg => some (ascii "[UNK]")

/-- The line of a message, without the line feed. -/
def entry (ident date message : List UInt8) : List UInt8 := ident ++ 32 :: (date ++ 32 :: message)

/-- `gebr_log_add_message`. -/
def gebrLogAddMessage (type : GebrLogMessageType) (date message file : List UInt8) : List UInt8 :=
  match identStr type with
  | none => file
  | some ident => file ++ writeChars (entry ident date message ++ [10])

/-- The kinds that `gebr_log_messages_read` knows. -/
def typeOf (ident : List UInt8) : Option GebrLogMessageType :=
  if ident = ascii "[ERR]" then some .error
  else if ident = ascii "[WARN]" then some .warning
  else if ident = ascii "[INFO]" then some .info
  else if ident = ascii "[STR]" then some .start
  else if ident = ascii "[END]" then some .finish
  else none

/-- One line in `gebr_log_messages_read`: a message, or nothing. Without a text between two spaces
the program reads, or writes, where it must not. -/
def parseLine (line : List UInt8) : Option (Option GebrLogMessage) :=
  match gStrsplit 32 3 (line.takeWhile (· ≠ 0)) with
  | [] => none
  | ident :: splits =>
    if ident.head? ≠ some 91 then some none
    else
      match typeOf ident with
      | none => some none
      | some type =>
        match splits with
        | date :: text :: _ => if text = [] then none else some (some ⟨type, date, text.dropLast⟩)
        | _ => none

/-- The loop of `gebr_log_messages_read`. -/
def readLoop : List (List UInt8) → Option (List GebrLogMessage)
  | [] => some []
  | line :: lines =>
    (parseLine line).bind fun message => (readLoop lines).map fun messages => message.toList ++
      messages

/-- `gebr_log_messages_read`. -/
def gebrLogMessagesRead (file : List UInt8) : Option (List GebrLogMessage) := readLoop (readLines file)

/-- `gebr_log_open`: the file is made when there is none. -/
def gebrLogOpen (file : Option (List UInt8)) : List UInt8 := file.getD []

/-- The kinds that `gebr_log_add_message_to_list` has an icon for; it leaves out the others. -/
def GebrLogMessageType.isListed : GebrLogMessageType → Bool
  | .start | .finish | .info | .error | .warning => true
  | .debug | .msg => false

/-- `gebr_log_add_message_to_list`. -/
def gebrLogAddMessageToList (message : GebrLogMessage) (list : List GebrLogMessage) :
    List GebrLogMessage :=
  if message.type.isListed = true then list ++ [message] else list

/-- The log file, and the list of the log window while a session runs. -/
structure Log where
  file : Option (List UInt8)
  list : Option (List GebrLogMessage)

/-- No session has run. -/
def noLog : Log := ⟨none, none⟩

/-- A message of the program, with the date that is read for the window, and the one that is read
for the file. -/
structure Call where
  type : GebrLogMessageType
  inLogFile : Bool
  date : IsoDate
  fileDate : IsoDate
  message : CText

inductive Event where
  /-- A session begins; `logLoad` is `gebr.config.log_load`. -/
  | init (logLoad : Bool)
  | message (call : Call)
  /-- `gebr_quit`. -/
  | quit

/-- `gebr_log_load`. -/
def gebrLogLoad (logLoad : Bool) (log : Log) : Option Log :=
  let file := gebrLogOpen log.file
  if logLoad = true then
    (gebrLogMessagesRead file).map fun messages =>
      ⟨some file, some (messages.foldl (fun list message => gebrLogAddMessageToList message list) [])⟩
  else some ⟨some file, some []⟩

/-- `gebr_message`. -/
def gebrMessage (call : Call) (file : List UInt8) (list : List GebrLogMessage) : Log :=
  if call.type = .debug then ⟨some file, some list⟩
  else if call.inLogFile = true then
    ⟨some (gebrLogAddMessage call.type call.fileDate.text call.message.text file),
      some (gebrLogAddMessageToList ⟨call.type, call.date.text, call.message.text⟩ list)⟩
  else ⟨some file, some list⟩

/-- **The interface takes one event**, a message only while a session runs. -/
def step (log : Log) : Event → Option Log
  | .init logLoad => if log.list.isSome = true then none else gebrLogLoad logLoad log
  | .message call =>
    match log.file, log.list with
    | some file, some list => some (gebrMessage call file list)
    | _, _ => none
  | .quit => if log.list.isSome = true then some ⟨log.file, none⟩ else none

/-- The messages that are logged in some events. -/
def logged (events : List Event) : List Call :=
  events.filterMap fun event =>
    match event with
    | .message call => if call.inLogFile = true then some call else none
    | _ => none

/-- What the log window of the next session is to show of it. -/
def reread (call : Call) : Option GebrLogMessage :=
  if call.type.isListed = true then some ⟨call.type, call.fileDate.text, call.message.text⟩ else none

/-- The line of a message in the file; a debug message has none. -/
def written (call : Call) : List UInt8 :=
  gebrLogAddMessage call.type call.fileDate.text call.message.text []

/-- A message that is shown is one line; of another one, nothing is taken for an entry. -/
def Clean (call : Call) : Prop :=
  if call.type.isListed = true then OneLine call.message.text else gebrLogMessagesRead
    (written call) = some []

end Model

section Lines

variable {ident date text : List UInt8} {type : GebrLogMessageType}

/-- What is read of a text in UTF-8. -/
def messagesIn (file : List UInt8) : Option (List GebrLogMessage) := readLoop (lines gBreaks file)

theorem read_valid {file : List UInt8} (valid : Utf8.validate file = true) :
    gebrLogMessagesRead file = messagesIn file := by
  rw [gebrLogMessagesRead, readLines_valid valid, messagesIn]

theorem typeOf_identStr (listed : type.isListed = true) :
    ∃ ident, identStr type = some ident ∧ typeOf ident = some type ∧ ident.head? =
      some 91 ∧ 32 ∉ ident ∧ ∀ b ∈ ident, Plain b := by
  cases type with
  | debug => cases listed
  | msg => cases listed
  | _ => exact ⟨_, rfl, by decide, by decide, by decide, List.all_iff_forall_prop.1 (by decide)⟩

theorem plain_isoDate (date : IsoDate) : 32 ∉ date.text ∧ (∀ b ∈ date.text, Plain b) ∧
    0 ∉ date.text := by
  have marks : ∀ b ∈ date.text, b ≠ 32 ∧ Plain b := by
    intro b member
    rcases date.plain b member with digit | mark
    · rw [isDigit_iff] at digit
      have other (c : UInt8) (outside : c.toNat < 48 ∨ 57 < c.toNat) : b ≠ c := by
        rintro rfl
        omega
      exact ⟨other 32 (by decide), other 10 (by decide), other 13 (by decide), other 0 (by decide),
        other 0xE2 (by decide)⟩
    · have all : ∀ c ∈ ascii "-:.TZ", c ≠ 32 ∧ Plain c := List.all_iff_forall_prop.1 (by decide)
      exact all b mark
  exact ⟨fun member => (marks 32 member).1 rfl, fun b member => (marks b member).2, fun member =>
    (marks 0 member).2.2.2.1 rfl⟩

theorem plain_space : Plain 32 := by decide

theorem gStrsplit_entry (ident_clean : 32 ∉ ident) (date_clean : 32 ∉ date)
    (nul : 0 ∉ entry ident date text) : gStrsplit 32 3 ((entry ident date text).takeWhile (· ≠ 0)) =
    [ident, date, text] := by
  have whole : (entry ident date text).takeWhile (· ≠ 0) = entry ident date text := by
    rw [List.takeWhile_eq_self_iff]
    intro b member
    exact decide_eq_true fun same => nul (same ▸ member)
  have some_byte : entry ident date text ≠ [] := List.append_ne_nil_of_right_ne_nil _
    (List.cons_ne_nil _ _)
  rw [whole, gStrsplit, if_neg some_byte, if_neg (by decide), entry, splitTokens_cons ident_clean,
    splitTokens_cons date_clean]
  rfl

theorem nul_entry (ident_nul : 0 ∉ ident) (date_nul : 0 ∉ date) (text_nul : 0 ∉ text) :
    0 ∉ entry ident date text := by
  unfold entry
  intro member
  rcases List.mem_append.1 member with first | rest
  · exact ident_nul first
  · rcases List.mem_cons.1 rest with space | rest
    · exact absurd space (by decide)
    · rcases List.mem_append.1 rest with second | third
      · exact date_nul second
      · exact (List.mem_cons.1 third).elim (fun space => absurd space (by decide)) text_nul

/-- **An entry is read as it was written**, but for its last byte. -/
theorem parseLine_entry (listed : type.isListed = true) (given : identStr type = some ident)
    (date : IsoDate) (text_nul : 0 ∉ text) (some_byte : text ≠ []) :
    parseLine (entry ident date.text text) = some (some ⟨type, date.text, text.dropLast⟩) := by
  obtain ⟨mark, same, known, bracket, spaceless, plain⟩ := typeOf_identStr listed
  obtain rfl : mark = ident := Option.some.inj (same.symm.trans given)
  obtain ⟨date_clean, -, date_nul⟩ := plain_isoDate date
  have nul := nul_entry (fun member => (plain 0 member).2.2.1 rfl) date_nul text_nul
  rw [parseLine, gStrsplit_entry spaceless date_clean nul]
  dsimp only
  rw [if_neg (not_not_intro bracket), known]
  dsimp only
  rw [if_neg some_byte]

/-- A line of a kind that is not known is passed over. -/
theorem parseLine_unknown (date : IsoDate) (text_nul : 0 ∉ text) :
    parseLine (entry (ascii "[UNK]") date.text text) = some none := by
  obtain ⟨date_clean, -, date_nul⟩ := plain_isoDate date
  have nul := nul_entry (show 0 ∉ ascii "[UNK]" by decide) date_nul text_nul
  rw [parseLine, gStrsplit_entry (by decide) date_clean nul]
  dsimp only
  rw [if_neg (by decide), show typeOf (ascii "[UNK]") = none by decide]

end Lines

section Files

variable {call : Call}

theorem readLoop_append (front back : List (List UInt8)) :
    readLoop (front ++ back) = (readLoop front).bind fun first => (readLoop back).map
    (first ++ ·) := by
  induction front with
  | nil => simp [readLoop]
  | cons line front ih =>
    rw [List.cons_append, readLoop, readLoop, ih]
    cases parseLine line with
    | none => rfl
    | some message =>
      cases readLoop front with
      | none => rfl
      | some first => cases readLoop back <;> simp

/-- What is read behind the first line break of a text. -/
def behind (text : List UInt8) : Option (List GebrLogMessage) :=
  messagesIn (readLine gBreaks (text ++ [10])).2

theorem valid_isoDate (date : IsoDate) : Utf8.validate date.text = true := by
  refine Utf8.validate_ascii fun b member => ?_
  rcases date.plain b member with digit | mark
  · rw [isDigit_iff] at digit
    exact UInt8.lt_iff_toNat_lt.2 (show b.toNat < 128 by omega)
  · have all : ∀ c ∈ ascii "-:.TZ", c < 0x80 := List.all_iff_forall_prop.1 (by decide)
    exact all b mark

/-- **The line of a message is written as a whole.** -/
theorem written_line {ident : List UInt8} (given : identStr call.type = some ident) :
    written call = entry ident call.fileDate.text call.message.text ++ [10] ∧ Utf8.validate
    (written call) = true := by
  have ascii_ident : Utf8.validate ident = true := by
    cases type : call.type <;> rw [type] at given <;> cases given <;> decide
  have valid : Utf8.validate (entry ident call.fileDate.text call.message.text ++ [10]) = true := by
    rw [SeparatedList.validate_separated (by decide), entry,
      SeparatedList.validate_separated (by decide), SeparatedList.validate_separated (by decide)]
    exact ⟨⟨ascii_ident, valid_isoDate call.fileDate, call.message.valid⟩, rfl⟩
  have line : written call = entry ident call.fileDate.text call.message.text ++ [10] := by
    rw [written, gebrLogAddMessage, given]
    exact characters_valid valid
  exact ⟨line, line ▸ valid⟩

theorem written_none (none : identStr call.type = none) : written call = [] := by
  rw [written, gebrLogAddMessage, none]

theorem valid_written (call : Call) : Utf8.validate (written call) = true := by
  cases given : identStr call.type with
  | none => rw [written_none given, Utf8.validate_nil]
  | some ident => exact (written_line given).2

/-- **The file is in UTF-8.** -/
theorem valid_file (calls : List Call) : Utf8.validate (calls.flatMap written) = true := by
  induction calls with
  | nil => rfl
  | cons call calls ih => rw [List.flatMap_cons, Utf8.validate_append (valid_written call), ih]

theorem lines_entry {ident : List UInt8} (plain : ∀ b ∈ ident, Plain b) (date : IsoDate)
    (text : List UInt8) : lines gBreaks (entry ident date.text text ++ [10]) =
      entry ident date.text (readLine gBreaks (text ++ [10])).1 :: lines gBreaks
      (readLine gBreaks (text ++ [10])).2 := by
  have front : ∀ b ∈ ident ++ 32 :: (date.text ++ [32]), ∀ text, gBreaks.length (b :: text) = 0 := by
    intro b member
    refine gBreakLength_plain ?_
    rcases List.mem_append.1 member with first | rest
    · exact plain b first
    · rcases List.mem_cons.1 rest with rfl | rest
      · exact plain_space
      · rcases List.mem_append.1 rest with second | space
        · exact (plain_isoDate date).2.1 b second
        · exact List.mem_singleton.1 space ▸ plain_space
  have shape (text : List UInt8) : entry ident date.text text = ident ++
      32 :: (date.text ++ [32]) ++ text := by
    simp [entry]
  have some_byte : entry ident date.text text ++ [10] ≠ [] := List.append_ne_nil_of_right_ne_nil _
    (List.cons_ne_nil _ _)
  rw [lines_cons some_byte, shape, List.append_assoc, readLine_plain front, shape]

/-- What is read of an entry first. -/
def firstRead (call : Call) : Option GebrLogMessage :=
  if call.type.isListed = true then
    some ⟨call.type, call.fileDate.text, (readLine gBreaks (call.message.text ++ [10])).1.dropLast⟩
  else none

theorem nul_first (call : Call) : 0 ∉ (readLine gBreaks (call.message.text ++ [10])).1 := by
  intro member
  have all := @readLine_append UInt8 gBreaks (call.message.text ++ [10])
  have inside : 0 ∈ call.message.text ++ [10] := all ▸ List.mem_append_left _ member
  exact (List.mem_append.1 inside).elim call.message.terminated (by decide)

theorem not_debug_of_listed (listed : call.type.isListed = true) : call.type ≠ .debug := by
  intro same
  rw [same] at listed
  cases listed

theorem oneLine_of_dropLast {text : List UInt8}
    (whole : (readLine gBreaks (text ++ [10])).1.dropLast = text) : OneLine text := by
  have all := congrArg List.length (@readLine_append UInt8 gBreaks (text ++ [10]))
  have some_byte : (readLine gBreaks (text ++ [10])).1 ≠ [] :=
    readLine_ne_nil (List.append_ne_nil_of_right_ne_nil _ (List.cons_ne_nil 10 []))
  have positive := List.length_pos_iff.2 some_byte
  have length := congrArg List.length whole
  rw [List.length_dropLast] at length
  rw [List.length_append, List.length_append, List.length_singleton] at all
  exact (readLine_iff text).1 (List.length_eq_zero_iff.1 (by omega))

/-- **What is read of a message**: its text up to the first line break, then what is behind that. -/
theorem read_add (call : Call) :
    messagesIn (written call) =
      if call.type = .debug then some []
      else (behind call.message.text).map fun messages => (firstRead call).toList ++ messages := by
  have some_byte : (readLine gBreaks (call.message.text ++ [10])).1 ≠ [] :=
    readLine_ne_nil (List.append_ne_nil_of_right_ne_nil _ (List.cons_ne_nil 10 []))
  by_cases listed : call.type.isListed = true
  · obtain ⟨ident, given, -, -, -, plain⟩ := typeOf_identStr listed
    rw [if_neg (not_debug_of_listed listed), messagesIn, (written_line given).1, lines_entry plain,
      readLoop, parseLine_entry listed given call.fileDate (nul_first call) some_byte, firstRead,
        if_pos listed]
    rfl
  · have kinds : call.type = .debug ∨ call.type = .msg := by
      cases type : call.type <;> rw [type] at listed <;> revert listed <;> decide
    rcases kinds with debug | msg
    · rw [if_pos debug, written_none (by rw [debug]; rfl)]
      rfl
    · have plain : ∀ b ∈ ascii "[UNK]", Plain b := List.all_iff_forall_prop.1 (by decide)
      have given : identStr call.type = some (ascii "[UNK]") := by rw [msg]; rfl
      rw [if_neg (by rw [msg]; decide), messagesIn, (written_line given).1, lines_entry plain,
        readLoop, parseLine_unknown call.fileDate (nul_first call), firstRead, if_neg listed]
      rfl

/-- **What is behind a message in the file is read on its own.** -/
theorem read_append (call : Call) (file : List UInt8) :
    messagesIn (written call ++ file) =
      (messagesIn (written call)).bind fun first => (messagesIn file).map (first ++ ·) := by
  have cut : lines gBreaks (written call ++ file) = lines gBreaks (written call) ++
      lines gBreaks file := by
    cases given : identStr call.type with
    | none =>
      rw [written_none given]
      rfl
    | some ident =>
      rw [(written_line given).1, List.append_assoc, List.singleton_append]
      exact lines_append closes_gBreaks _ file
  rw [messagesIn, cut, readLoop_append]
  rfl

theorem behind_oneLine {text : List UInt8} (single : OneLine text) : behind text = some [] := by
  rw [behind, (readLine_iff text).2 single]
  rfl

theorem written_eq (call : Call) (file : List UInt8) :
    gebrLogAddMessage call.type call.fileDate.text call.message.text file = file ++ written call := by
  unfold written gebrLogAddMessage
  cases identStr call.type with
  | none => exact (List.append_nil file).symm
  | some ident => rfl

/-- **A message that is one line is read as it was shown.** -/
theorem read_clean (clean : Clean call) : messagesIn (written call) = some (reread call).toList := by
  unfold Clean at clean
  unfold reread
  split_ifs at clean ⊢ with listed
  · have all := @readLine_append UInt8 gBreaks (call.message.text ++ [10])
    rw [(readLine_iff _).2 clean, List.append_nil] at all
    rw [read_add, if_neg (not_debug_of_listed listed), behind_oneLine clean, firstRead,
      if_pos listed, all, List.dropLast_concat]
    rfl
  · rwa [read_valid (valid_written call)] at clean

/-- What is read of some messages is at least what was shown. -/
theorem length_reread_le {calls : List Call} {messages : List GebrLogMessage}
    (read : messagesIn (calls.flatMap written) = some messages) :
    (calls.filterMap reread).length ≤ messages.length := by
  induction calls generalizing messages with
  | nil => exact Nat.zero_le _
  | cons call calls ih =>
    rw [List.flatMap_cons, read_append] at read
    obtain ⟨first, here, rest⟩ := Option.bind_eq_some_iff.1 read
    obtain ⟨later, there, rfl⟩ := Option.map_eq_some_iff.1 rest
    have less := ih there
    rw [List.filterMap_cons, List.length_append]
    cases show_ : reread call with
    | none => exact less.trans (Nat.le_add_left _ _)
    | some message =>
      have listed : call.type.isListed = true := by
        by_contra unlisted
        rw [reread, if_neg unlisted] at show_
        cases show_
      rw [read_add, if_neg (not_debug_of_listed listed), firstRead, if_pos listed] at here
      obtain ⟨tail, -, rfl⟩ := Option.map_eq_some_iff.1 here
      simp only [Option.toList_some, List.length_cons, List.singleton_append]
      omega

/-- **A file of entries is read as they were shown** if and only if each is clean. -/
theorem load_iff (calls : List Call) :
    messagesIn (calls.flatMap written) = some (calls.filterMap reread) ↔ ∀ call ∈ calls,
    Clean call := by
  induction calls with
  | nil => exact iff_of_true rfl fun _ member => absurd member List.not_mem_nil
  | cons call calls ih =>
    rw [List.flatMap_cons, read_append, List.forall_mem_cons, ← ih]
    have shape : (call :: calls).filterMap reread = (reread call).toList ++
        calls.filterMap reread := by
      rw [List.filterMap_cons]
      cases reread call <;> rfl
    rw [shape]
    constructor
    · intro read
      obtain ⟨first, here, rest⟩ := Option.bind_eq_some_iff.1 read
      obtain ⟨later, there, same⟩ := Option.map_eq_some_iff.1 rest
      have enough := length_reread_le there
      by_cases listed : call.type.isListed = true
      · rw [read_add, if_neg (not_debug_of_listed listed), firstRead, if_pos listed] at here
        obtain ⟨tail, -, rfl⟩ := Option.map_eq_some_iff.1 here
        rw [reread, if_pos listed] at same
        have message := (List.cons.inj same).1
        have others : tail ++ later = calls.filterMap reread := (List.cons.inj same).2
        have none : tail = [] := by
          have total := congrArg List.length others
          rw [List.length_append] at total
          exact List.length_eq_zero_iff.1 (by omega)
        refine ⟨?_, by rw [there, ← others, none]; rfl⟩
        rw [Clean, if_pos listed]
        exact oneLine_of_dropLast (GebrLogMessage.mk.inj message).2.2
      · rw [reread, if_neg listed] at same
        have none : first = [] := by
          have total := congrArg List.length same
          rw [Option.toList_none, List.nil_append, List.length_append] at total
          exact List.length_eq_zero_iff.1 (by omega)
        have others : later = calls.filterMap reread := by
          rw [none] at same
          exact same
        refine ⟨?_, by rw [there, others]⟩
        rw [Clean, if_neg listed, read_valid (valid_written call), here, none]
    · rintro ⟨clean, rest⟩
      rw [read_clean clean, rest]
      rfl

end Files

section Sessions

variable {log next : Log}

theorem isListed_of_typeOf {ident : List UInt8} {type : GebrLogMessageType}
    (known : typeOf ident = some type) : type.isListed = true := by
  unfold typeOf at known
  split_ifs at known <;> exact Option.some.inj known ▸ rfl

theorem isListed_of_parseLine {line : List UInt8} {message : GebrLogMessage}
    (parsed : parseLine line = some (some message)) : message.type.isListed = true := by
  unfold parseLine at parsed
  split at parsed
  · cases parsed
  · split at parsed
    · cases parsed
    · split at parsed
      · cases parsed
      · rename_i type known
        split at parsed
        · split_ifs at parsed
          rw [← Option.some.inj (Option.some.inj parsed)]
          exact isListed_of_typeOf known
        · cases parsed

theorem isListed_of_reread {call : Call} {message : GebrLogMessage}
    (is_reread : reread call = some message) : message.type.isListed = true := by
  unfold reread at is_reread
  split_ifs at is_reread with listed
  exact Option.some.inj is_reread ▸ listed

theorem isListed_of_read {lines : List (List UInt8)} {messages : List GebrLogMessage}
    (read : readLoop lines = some messages) : ∀ message ∈ messages, message.type.isListed = true := by
  induction lines generalizing messages with
  | nil =>
    obtain rfl := Option.some.inj read
    exact fun _ member => absurd member List.not_mem_nil
  | cons line lines ih =>
    obtain ⟨first, here, rest⟩ := Option.bind_eq_some_iff.1 read
    obtain ⟨later, there, rfl⟩ := Option.map_eq_some_iff.1 rest
    intro message member
    rcases List.mem_append.1 member with own | others
    · rw [Option.mem_toList.1 own] at here
      exact isListed_of_parseLine here
    · exact ih there message others

/-- Messages of the kinds with an icon are all listed. -/
theorem foldl_list {messages list : List GebrLogMessage}
    (listed : ∀ message ∈ messages, message.type.isListed = true) :
    messages.foldl (fun list message => gebrLogAddMessageToList message list) list = list ++
    messages := by
  induction messages generalizing list with
  | nil => exact (List.append_nil list).symm
  | cons message messages ih =>
    rw [List.forall_mem_cons] at listed
    rw [List.foldl_cons, gebrLogAddMessageToList, if_pos listed.1, ih listed.2, List.append_assoc]
    rfl

theorem foldl_reread (calls : List Call) :
    (calls.filterMap reread).foldl (fun list message => gebrLogAddMessageToList message list) [] =
      calls.filterMap reread := by
  refine foldl_list fun message member => ?_
  obtain ⟨call, -, is_reread⟩ := List.mem_filterMap.1 member
  exact isListed_of_reread is_reread

/-- **One event** appends its message, if it is logged. -/
theorem step_file {event : Event} (taken : step log event = some next) :
    gebrLogOpen next.file = gebrLogOpen log.file ++ (logged [event]).flatMap written := by
  cases event with
  | init logLoad =>
    show _ = gebrLogOpen log.file ++ []
    rw [List.append_nil]
    unfold step gebrLogLoad at taken
    dsimp only at taken
    split_ifs at taken
    · obtain ⟨messages, -, rfl⟩ := Option.map_eq_some_iff.1 taken
      rfl
    · obtain rfl := Option.some.inj taken
      rfl
  | message call =>
    unfold step at taken
    dsimp only at taken
    split at taken
    · rename_i file list opened _
      obtain rfl := Option.some.inj taken
      rw [opened]
      unfold gebrMessage
      by_cases inFile : call.inLogFile = true
      · have one : logged [.message call] = [call] := by simp [logged, inFile]
        rw [one, List.flatMap_singleton]
        split_ifs with debug
        · rw [written_none (by rw [debug]; rfl)]
          exact (List.append_nil file).symm
        · exact written_eq call file
      · have none : logged [.message call] = [] := by simp [logged, inFile]
        rw [none, List.flatMap_nil, List.append_nil]
        split_ifs <;> rfl
    · cases taken
  | quit =>
    show _ = gebrLogOpen log.file ++ []
    rw [List.append_nil]
    unfold step at taken
    dsimp only at taken
    split_ifs at taken
    obtain rfl := Option.some.inj taken
    rfl

/-- **After a run** the file has the lines of all that was logged, in order. -/
theorem run_file {events : List Event} (reaches : Run.run step log events = some next) :
    gebrLogOpen next.file = gebrLogOpen log.file ++ (logged events).flatMap written := by
  induction events generalizing log with
  | nil =>
    obtain rfl := Option.some.inj reaches
    exact (List.append_nil _).symm
  | cons event events ih =>
    obtain ⟨mid, taken, rest⟩ := Option.bind_eq_some_iff.1 reaches
    have split : logged (event :: events) = logged [event] ++ logged events :=
      List.filterMap_append (l := [event])
    rw [ih rest, step_file taken, split, List.flatMap_append, List.append_assoc]

/-- **After any sessions, the next one shows all that was logged**, in order and with the dates of
the file, if and only if no message of a kind that is shown has a line break, and no other one a
line that is taken for an entry. -/
theorem reload_iff {events : List Event} (reaches : Run.run step noLog events = some log)
    (closed : log.list = none) :
      step log (.init true) =
      some ⟨some (gebrLogOpen log.file), some ((logged events).filterMap reread)⟩ ↔
      ∀ call ∈ logged events, Clean call := by
  have file : gebrLogOpen log.file = (logged events).flatMap written := run_file reaches
  have load : step log (.init true) = (gebrLogMessagesRead (gebrLogOpen log.file)).map fun messages =>
      ⟨some (gebrLogOpen log.file),
          some (messages.foldl (fun list message => gebrLogAddMessageToList message list) [])⟩ := by
    unfold step gebrLogLoad
    rw [closed]
    rfl
  rw [load, file, read_valid (valid_file _), ← load_iff]
  constructor
  · intro same
    obtain ⟨messages, read, shows⟩ := Option.map_eq_some_iff.1 same
    rw [foldl_list (isListed_of_read read), List.nil_append] at shows
    rw [read]
    exact congrArg Log.list shows
  · intro read
    rw [read, Option.map_some, foldl_reread]

theorem plain_januaryDate : ∀ b ∈ ascii "2013-01-31T12:00:00Z", isDigit b = true ∨ b ∈ ascii "-:.TZ" :=
  List.all_iff_forall_prop.1 (by decide)

theorem plain_secondLater : ∀ b ∈ ascii "2013-01-31T12:00:01Z", isDigit b = true ∨ b ∈ ascii "-:.TZ" :=
  List.all_iff_forall_prop.1 (by decide)

theorem terminated_diskFull : 0 ∉ ascii "disk full" := by decide

theorem valid_diskFull : Utf8.validate (ascii "disk full") = true := by decide

def januaryDate : IsoDate := ⟨_, plain_januaryDate⟩

def secondLater : IsoDate := ⟨_, plain_secondLater⟩

def diskFull : CText := ⟨_, terminated_diskFull, valid_diskFull⟩

/-- A session with one message. -/
def oneSession : List Event :=
  [.init true, .message ⟨.warning, true, januaryDate, secondLater, diskFull⟩, .quit]

/-- **The message is shown again.** -/
theorem reload_iff_warning : ∃ log, Run.run step noLog oneSession = some log ∧
    (step log (.init true) =
      some ⟨some (gebrLogOpen log.file), some ((logged oneSession).filterMap reread)⟩ ↔
      ∀ call ∈ logged oneSession, Clean call) :=
  ⟨_, rfl, reload_iff rfl rfl⟩

/-- A message whose second line looks like an entry ends the program that reads it. -/
example : gebrLogMessagesRead
    (gebrLogAddMessage .info (ascii "2013") (ascii "first" ++ 10 :: ascii "[ERR] second") []) =
    none := by decide +kernel

end Sessions

end Gebr.Interface.LogFile
