/-
**The output of a command in what ssh says.**

With its log switched on, ssh says that it sends a command; then comes what the command prints,
until ssh logs something again. The output is handed on there, and what was printed before by other
commands is handed on with it.

* `Command`, `Section`: a command with what it prints, and what ssh says before it.
* `outputs`: what is handed on, for each of the commands.
* `turns_section`: the lines of one section.
* `stdouts_of_pieces` — **the outputs are handed on, whole and in order**, in whatever pieces they
  come.
-/

import Gebr.Comm.SshOutput

namespace Gebr.Comm.SshOutput

open Gebr.Lib Gebr.Lib.CString Gebr.Lib.LineBuffer

section Transcript

/-- A line of a C string. -/
def Clean (line : Text) : Prop := 10 ∉ line ∧ 0 ∉ line

instance (line : Text) : Decidable (Clean line) := inferInstanceAs (Decidable (_ ∧ _))

/-- The line of the log that ends an output. -/
def isLog (line : Text) : Bool := (ascii "debug1: ").isPrefixOf line

/-- A command: the line which says that it is sent, what it prints, and the next line of the log. -/
structure Command where
  opener : Text
  body : List Text
  closer : Text
  opens : lineKind (CString.gStrstrip opener) = .command
  prints : ∀ line ∈ body, isLog (CString.gStrstrip line) = false
  closes : isLog (CString.gStrstrip closer) = true
  clean : ∀ line ∈ opener :: body ++ [closer], Clean line

/-- What ssh says before a command, and the command. -/
structure Section where
  before : List Text
  command : Command
  quiet : ∀ line ∈ before, lineKind (CString.gStrstrip line) ≠ .command
  clean : ∀ line ∈ before, Clean line

def Command.lines (command : Command) : List Text := command.opener :: command.body ++ [command.closer]

def Section.lines (part : Section) : List Text := part.before ++ part.command.lines

/-- The lines as they are collected. -/
def printed (body : List Text) : Text := body.flatMap fun line => CString.gStrstrip line ++ [10]

/-- **What is handed on** for each command: what it printed, behind all that was printed before. -/
def outputs : Text → List Section → List Text
  | _, [] => []
  | out, part :: parts => (out ++ printed part.command.body) :: outputs
      (out ++ printed part.command.body) parts

/-- The outputs that were handed on. -/
def stdouts (acts : List Act) : List Text :=
  acts.filterMap fun act =>
    match act with
    | .emit (.stdout output) => some output
    | _ => none

end Transcript

section Lines

variable {self : GebrCommSsh} {line : Text}

theorem stdouts_concat (acts : List Act) (act : Act) :
    stdouts (acts ++ [act]) = stdouts acts ++ stdouts [act] :=
  List.filterMap_append

/-- What stays the same while no command prints. -/
structure Waiting (before after : GebrCommSsh) : Prop where
  mode : after.outState = before.outState
  out : after.outBuffer = before.outBuffer
  told : stdouts after.acts = stdouts before.acts

theorem Waiting.trans {before mid after : GebrCommSsh} (first : Waiting before mid)
    (second : Waiting mid after) : Waiting before after :=
  ⟨second.mode.trans first.mode, second.out.trans first.out, second.told.trans first.told⟩

theorem waiting_fill (line : Text) (self : GebrCommSsh) : Waiting self (fillSshOutput line self) := by
  unfold fillSshOutput
  split_ifs
  · exact ⟨rfl, rfl, rfl⟩
  · exact ⟨rfl, rfl, rfl⟩

/-- A line that is not about a command. -/
theorem waiting_quiet (mode : self.outState = .init) (quiet : lineKind line ≠ .command) :
    Waiting self (turn line self) := by
  have other : ∀ (mid : GebrCommSsh) (act : Act), stdouts [act] = [] → mid.outState = self.outState →
      mid.outBuffer = self.outBuffer → mid.acts = self.acts → Waiting self (mid.act act) := by
    intro mid act none_told mode out acts
    refine ⟨mode, out, ?_⟩
    rw [GebrCommSsh.act, stdouts_concat, none_told, acts, List.append_nil]
  have process : Waiting self (processInit line self) := by
    unfold processInit
    cases kind : lineKind line with
    | command => exact absurd kind quiet
    | fingerprint _ => exact ⟨rfl, rfl, rfl⟩
    | other => exact ⟨rfl, rfl, rfl⟩
    | question => exact other _ _ rfl rfl rfl rfl
    | hostVerification => exact other _ _ rfl rfl rfl rfl
    | password => exact other _ _ rfl rfl rfl rfl
    | certificate => exact other _ _ rfl rfl rfl rfl
    | keys => exact other _ _ rfl rfl rfl rfl
    | sshError => exact other _ _ rfl rfl rfl rfl
    | wrongPassword => exact other _ _ rfl rfl rfl rfl
    | localForward => exact other _ _ rfl rfl rfl rfl
  rw [turn, processSshLine_init mode]
  exact process.trans (waiting_fill line _)

theorem waiting_lines {lines : List Text} (mode : self.outState = .init)
    (quiet : ∀ line ∈ lines, lineKind (CString.gStrstrip line) ≠ .command) :
    Waiting self (turns lines self) := by
  induction lines generalizing self with
  | nil => exact ⟨rfl, rfl, rfl⟩
  | cons line lines ih =>
    rw [List.forall_mem_cons] at quiet
    have first := waiting_quiet mode quiet.1
    exact first.trans (ih (first.mode.trans mode) quiet.2)

theorem turn_opener (mode : self.outState = .init) (opens : lineKind line = .command) :
    (turn line self).outState = .commandOutput ∧ (turn line self).outBuffer = self.outBuffer ∧
      stdouts (turn line self).acts = stdouts self.acts := by
  have kept := waiting_fill line (processSshLine line self)
  rw [turn]
  rw [processSshLine_init mode, processInit, opens] at kept ⊢
  exact ⟨kept.mode, kept.out, kept.told⟩

theorem turn_body (mode : self.outState = .commandOutput) (prints : isLog line = false) :
    (turn line self).outState = .commandOutput ∧ (turn line self).outBuffer = self.outBuffer ++
      (line ++ [10]) ∧ stdouts (turn line self).acts = stdouts self.acts := by
  have kept := waiting_fill line (processSshLine line self)
  have body : ¬ (ascii "debug1: ").isPrefixOf line = true := Bool.eq_false_iff.1 prints
  rw [turn]
  rw [processSshLine_output mode, if_neg body] at kept ⊢
  refine ⟨kept.mode.trans mode, kept.out.trans ?_, kept.told⟩
  exact List.append_assoc _ _ _

theorem turns_body {body : List Text} (mode : self.outState = .commandOutput)
    (prints : ∀ line ∈ body, isLog (CString.gStrstrip line) = false) :
    (turns body self).outState = .commandOutput ∧ (turns body self).outBuffer = self.outBuffer ++
      printed body ∧ stdouts (turns body self).acts = stdouts self.acts := by
  induction body generalizing self with
  | nil => exact ⟨mode, (List.append_nil _).symm, rfl⟩
  | cons line body ih =>
    rw [List.forall_mem_cons] at prints
    obtain ⟨mode', out, told⟩ := turn_body mode prints.1
    obtain ⟨last, all, none_told⟩ := ih mode' prints.2
    refine ⟨last, all.trans ?_, none_told.trans told⟩
    rw [out, List.append_assoc]
    rfl

theorem turn_closer (mode : self.outState = .commandOutput) (closes : isLog line = true) :
    (turn line self).outState = .init ∧ (turn line self).outBuffer = self.outBuffer ∧
      stdouts (turn line self).acts = stdouts self.acts ++ [self.outBuffer] := by
  have kept := waiting_fill line (processSshLine line self)
  have log : (ascii "debug1: ").isPrefixOf line = true := closes
  rw [turn]
  rw [processSshLine_output mode, if_pos log] at kept ⊢
  exact ⟨kept.mode, kept.out, kept.told.trans (stdouts_concat _ _)⟩

/-- **One section**: what the command prints is handed on, behind what is still there. -/
theorem turns_section (mode : self.outState = .init) (part : Section) :
    (turns part.lines self).outState = .init ∧
      (turns part.lines self).outBuffer = self.outBuffer ++ printed part.command.body ∧
      stdouts (turns part.lines self).acts =
        stdouts self.acts ++ [self.outBuffer ++ printed part.command.body] := by
  have waits := waiting_lines mode part.quiet
  obtain ⟨opened, out, none_told⟩ := turn_opener (waits.mode.trans mode) part.command.opens
  obtain ⟨prints, all, still⟩ := turns_body opened part.command.prints
  obtain ⟨closed, same, told⟩ := turn_closer prints part.command.closes
  have whole : ∀ state : GebrCommSsh, turns part.lines state =
      turn (CString.gStrstrip part.command.closer) (turns part.command.body
        (turn (CString.gStrstrip part.command.opener) (turns part.before state))) := by
    intro state
    rw [Section.lines, Command.lines, turns_append, List.cons_append, turns_cons, turns_append,
      turns_cons, turns_nil]
  have collected := all.trans (congrArg (· ++ printed part.command.body) (out.trans waits.out))
  rw [whole]
  refine ⟨closed, same.trans collected, told.trans ?_⟩
  rw [collected, still, none_told, waits.told]

/-- **All the sections.** -/
theorem turns_sections (mode : self.outState = .init) (parts : List Section) :
    (turns (parts.flatMap Section.lines) self).outState = .init ∧
      stdouts (turns (parts.flatMap Section.lines) self).acts = stdouts self.acts ++
      outputs self.outBuffer parts := by
  induction parts generalizing self with
  | nil => exact ⟨mode, (List.append_nil _).symm⟩
  | cons part parts ih =>
    obtain ⟨mode', out, told⟩ := turns_section mode part
    obtain ⟨last, all⟩ := ih mode'
    rw [List.flatMap_cons, turns_append]
    refine ⟨last, all.trans ?_⟩
    rw [told, out, List.append_assoc]
    rfl

end Lines

section Pieces

variable {self : GebrCommSsh}

/-- The text of the sections, and of what ssh says behind them. -/
def transcript (parts : List Section) (after : List Text) : Text :=
  (parts.flatMap Section.lines ++ after).flatMap (· ++ [10])

theorem clean_lines {parts : List Section} {after : List Text} (clean : ∀ line ∈ after, Clean line) :
    ∀ line ∈ parts.flatMap Section.lines ++ after, Clean line := by
  intro line member
  rcases List.mem_append.1 member with listed | last
  · obtain ⟨part, -, there⟩ := List.mem_flatMap.1 listed
    exact (List.mem_append.1 there).elim (part.clean line) (part.command.clean line)
  · exact clean line last

/-- **The outputs are handed on, whole and in order**, in whatever pieces the text comes, as long as
none of them ends within a line that has a prompt. -/
theorem stdouts_of_pieces (alive : self.process = true) (fresh : self.buffer = [])
    (mode : self.outState = .init) (parts : List Section) {after : List Text}
    (quiet : ∀ line ∈ after, lineKind (CString.gStrstrip line) ≠ .command)
    (clean : ∀ line ∈ after, Clean line) {pieces : List Text}
    (whole : pieces.flatten = transcript parts after) (calm : Calm [] pieces) :
      ∃ final, Run.run step self (pieces.map .read) = some final ∧ stdouts final.acts =
      stdouts self.acts ++ outputs self.outBuffer parts := by
  have lines : ∀ line ∈ _, Clean line := @clean_lines parts after clean
  have text : 0 ∉ pieces.flatten := by
    rw [whole]
    intro member
    obtain ⟨line, listed, there⟩ := List.mem_flatMap.1 member
    rcases List.mem_append.1 there with inside | last
    · exact (lines line listed).2 inside
    · exact absurd (List.mem_singleton.1 last) (by decide)
  have settled : Settled self.buffer := by
    rw [fresh]
    exact ⟨List.not_mem_nil, rfl⟩
  refine ⟨_, run_reads alive pieces, ?_⟩
  have cuts : cut 10 (transcript parts after) = (parts.flatMap Section.lines ++ after, []) := by
    have all := cut_lines (fun line listed => (lines line listed).1) ([] : Text)
    rwa [List.append_nil, cut_nil, List.append_nil] at all
  rw [reads_flatten text (fresh.symm ▸ calm) settled, parseOutput_eq text, fresh, List.nil_append,
    whole, parseLoop_calm (by rw [buffer_setBuffer, cuts]; rfl), buffer_setBuffer, cuts,
      turns_setBuffer]
  show stdouts (turns (parts.flatMap Section.lines ++ after) self).acts = _
  obtain ⟨last, told⟩ := turns_sections mode parts
  rw [turns_append, (waiting_lines last quiet).told, told]

/-- A program that prints its port. -/
def portCommand : Command where
  opener := ascii "debug1: Sending command: gebrd\r"
  body := [ascii "gebr-port=6012"]
  closer := ascii "debug1: Exit status 0"
  opens := by decide
  prints := by decide
  closes := by decide
  clean := by decide

def portSection : Section where
  before := [ascii "debug1: Connecting to node1"]
  command := portCommand
  quiet := by decide
  clean := by decide

/-- What ssh says, cut within the line of the port. -/
def portPieces : List Text :=
  [ascii "debug1: Connecting to node1\ndebug1: Sending command: gebrd\r\ngebr-po",
    ascii "rt=6012\ndebug1: Exit status 0\n"]

theorem stdouts_of_pieces_port :
    ∃ final, Run.run step gebrCommSshRun (portPieces.map .read) = some final ∧
      stdouts final.acts = [ascii "gebr-port=6012\n"] := by
  have nothing : ∀ line ∈ ([] : List Text), lineKind (CString.gStrstrip line) ≠ .command ∧
      Clean line :=
    fun _ member => absurd member List.not_mem_nil
  have handed := stdouts_of_pieces (show gebrCommSshRun.process = true from rfl) rfl rfl [portSection]
    (fun line member => (nothing line member).1) (fun line member => (nothing line member).2)
    (show portPieces.flatten = transcript [portSection] [] by decide +kernel) (by decide +kernel)
  exact handed

end Pieces

end Gebr.Comm.SshOutput
