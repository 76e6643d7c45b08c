/-
**When no output of a task is lost.**

The buffer of a stream is flushed by a read that comes on time: not before the second of the last
flush. What is flushed has to be UTF-8 as it stands, and what is read after the last such read
stays behind.

* `fold_kept_iff`: one stream keeps its text exactly when each flush is valid and nothing is left
  (`Settles`).
* `settles_iff_clean`: the same said of the reads themselves (`CutsClean`).
* `taskRun_outputKept_iff`: a task has sent and stored all its output, when it reports its terminal
  status, exactly when the reads of both streams are so.
-/

import Gebr.Daemon.Output
import Mathlib.Data.List.TakeWhile

namespace Gebr.Daemon

open Gebr.Comm Gebr.Lib

section Conditions

/-- The second of the last flush after these reads, from the second of the last flush before. -/
def lastFlush : ℤ → List Read → ℤ
  | last, [] => last
  | last, read :: reads =>
    if last ≤ read.now then lastFlush (toGint read.now) reads else lastFlush last reads

/-- **The reads of a stream are cut clean**: at every read that is on time (not before the last
flush of the reads before it) the text so far ends between characters, and every text is followed
by a read on time or comes with one. -/
structure CutsClean (reads : List Read) : Prop where
  whole : ∀ before read after, reads = before ++ read :: after →
    lastFlush 0 before ≤ read.now → Utf8.validate (texts (before ++ [read])) = true
  flushed : ∀ before read after, reads = before ++ read :: after → read.text ≠ [] →
    ∃ due ∈ read :: after, lastFlush 0 before ≤ due.now

/-- **What a task has to show** when it reports its terminal status. -/
structure OutputKept (job : GebrdJob) (reads : Stream → List Read) : Prop where
  /-- The terminal status is the last message. Before it, the texts sent from each stream are the
  texts read from it, and the stored output is all that was sent. -/
  sent : ∃ log status parameter, job.messages =
      log ++ [.sta job.jid (statusEnumToString status) parameter job.runId job.frac] ∧
    status ∈ [JobStatus.finished, .canceled, .failed] ∧ job.status = status ∧
    (∀ source, sentText source log = texts (reads source)) ∧ job.output = allSent log
  /-- Nothing is left in the buffers. -/
  drained : ∀ source, job.buf source = []

end Conditions

section Cuts

/-- The flushes of one stream, from the second of the last flush and the text in the buffer. -/
def Settles : ℤ → List UInt8 → List Read → Prop
  | _, buf, [] => buf = []
  | last, buf, read :: reads =>
    if last ≤ read.now then
      Utf8.validate (buf ++ read.text) = true ∧ Settles (toGint read.now) [] reads
    else Settles last (buf ++ read.text) reads

/-- A property of every cut of a list around an element, one element at a time. -/
theorem forall_cut_cons {α : Type*} {P : List α → α → List α → Prop} {first : α}
    {rest : List α} :
    (∀ before middle after, first :: rest = before ++ middle :: after → P before middle after) ↔
      P [] first rest ∧
        ∀ before middle after, rest = before ++ middle :: after →
          P (first :: before) middle after := by
  constructor
  · intro all
    refine ⟨all [] first rest rfl, fun before middle after cut => ?_⟩
    exact all (first :: before) middle after (by rw [cut, List.cons_append])
  · rintro ⟨here, later⟩ before middle after cut
    cases before with
    | nil =>
      obtain ⟨rfl, rfl⟩ := List.cons.inj cut
      exact here
    | cons head before =>
      obtain ⟨rfl, split⟩ := List.cons.inj cut
      exact later before middle after split

/-- `CutsClean` from a point in the middle of a stream: `past` is the text flushed so far and `buf`
the text that waits. -/
structure CleanFrom (last : ℤ) (past buf : List UInt8) (reads : List Read) : Prop where
  whole : ∀ before read after, reads = before ++ read :: after →
    lastFlush last before ≤ read.now →
      Utf8.validate (past ++ (buf ++ texts (before ++ [read]))) = true
  flushed : ∀ before read after, reads = before ++ read :: after → read.text ≠ [] →
    ∃ due ∈ read :: after, lastFlush last before ≤ due.now
  waiting : buf ≠ [] → ∃ due ∈ reads, last ≤ due.now

theorem cutsClean_iff (reads : List Read) : CutsClean reads ↔ CleanFrom 0 [] [] reads :=
  ⟨fun clean => ⟨clean.whole, clean.flushed, fun waits => absurd rfl waits⟩,
    fun clean => ⟨clean.whole, clean.flushed⟩⟩

/-- A read on time flushes the buffer and its own text. -/
theorem cleanFrom_onTime {last : ℤ} {past buf : List UInt8} {read : Read} {reads : List Read}
    (onTime : last ≤ read.now) :
    CleanFrom last past buf (read :: reads) ↔
      Utf8.validate (past ++ (buf ++ read.text)) = true ∧
        CleanFrom (toGint read.now) (past ++ (buf ++ read.text)) [] reads := by
  have flush : ∀ before, lastFlush last (read :: before) = lastFlush (toGint read.now) before :=
    fun before => by rw [lastFlush, if_pos onTime]
  constructor
  · intro clean
    obtain ⟨wholeHere, wholeLater⟩ := forall_cut_cons.1 clean.whole
    obtain ⟨-, flushedLater⟩ := forall_cut_cons.1 clean.flushed
    refine ⟨by simpa using wholeHere onTime, ?_, ?_, fun waits => absurd rfl waits⟩
    · intro before other after cut late
      simpa using wholeLater before other after cut (by rw [flush]; exact late)
    · intro before other after cut text
      simpa only [flush] using flushedLater before other after cut text
  · rintro ⟨valid, clean⟩
    refine ⟨forall_cut_cons.2 ⟨fun _ => by simpa using valid, ?_⟩,
      forall_cut_cons.2 ⟨fun _ => ⟨read, List.mem_cons_self, onTime⟩, ?_⟩,
      fun _ => ⟨read, List.mem_cons_self, onTime⟩⟩
    · intro before other after cut late
      rw [flush] at late
      simpa using clean.whole before other after cut late
    · intro before other after cut text
      simpa only [flush] using clean.flushed before other after cut text

/-- A read that is not on time only adds its text to what waits. -/
theorem cleanFrom_late {last : ℤ} {past buf : List UInt8} {read : Read} {reads : List Read}
    (late : ¬ last ≤ read.now) :
    CleanFrom last past buf (read :: reads) ↔ CleanFrom last past (buf ++ read.text) reads := by
  have stays : ∀ before, lastFlush last (read :: before) = lastFlush last before :=
    fun before => by rw [lastFlush, if_neg late]
  have skip : (∃ due ∈ read :: reads, last ≤ due.now) ↔ ∃ due ∈ reads, last ≤ due.now := by
    simp [late]
  constructor
  · intro clean
    obtain ⟨-, wholeLater⟩ := forall_cut_cons.1 clean.whole
    obtain ⟨flushedHere, flushedLater⟩ := forall_cut_cons.1 clean.flushed
    refine ⟨?_, ?_, fun waits => skip.1 ?_⟩
    · intro before other after cut onTime
      simpa using wholeLater before other after cut (by rw [stays]; exact onTime)
    · intro before other after cut text
      simpa only [stays] using flushedLater before other after cut text
    · by_cases text : read.text = []
      · rw [text, List.append_nil] at waits
        exact clean.waiting waits
      · exact flushedHere text
  · intro clean
    refine ⟨forall_cut_cons.2 ⟨fun onTime => absurd onTime late, ?_⟩,
      forall_cut_cons.2 ⟨fun text => ?_, ?_⟩, fun waits => skip.2 ?_⟩
    · intro before other after cut onTime
      rw [stays] at onTime
      simpa using clean.whole before other after cut onTime
    · exact skip.2 (clean.waiting fun empty => text (List.append_eq_nil_iff.1 empty).2)
    · intro before other after cut text
      simpa only [stays] using clean.flushed before other after cut text
    · exact clean.waiting fun empty => waits (List.append_eq_nil_iff.1 empty).1

/-- **The flushes settle exactly when the reads are clean.** The induction keeps the text flushed
so far valid, so that a flushed piece is valid when the text up to it is. -/
theorem settles_iff_clean {last : ℤ} {past buf : List UInt8} (valid : Utf8.validate past = true)
    (reads : List Read) : Settles last buf reads ↔ CleanFrom last past buf reads := by
  induction reads generalizing last past buf with
  | nil =>
    constructor
    · intro empty
      exact ⟨by simp, by simp, fun waits => absurd empty waits⟩
    · intro clean
      by_contra waits
      obtain ⟨due, none, -⟩ := clean.waiting waits
      exact absurd none List.not_mem_nil
  | cons read reads ih =>
    rw [Settles]
    by_cases onTime : last ≤ read.now
    · rw [if_pos onTime, cleanFrom_onTime onTime, Utf8.validate_append valid]
      refine and_congr_right fun piece => ih ?_
      rw [Utf8.validate_append valid, piece]
    · rw [if_neg onTime, cleanFrom_late onTime, ih valid]

end Cuts

section Fold

variable {localeToUtf8 : List UInt8 → Option (List UInt8)}

theorem readString_of_nulFree {buffer : List UInt8} (nulFree : 0 ∉ buffer) :
    readString buffer = buffer := by
  refine List.takeWhile_eq_self_iff.2 fun byte member => ?_
  rw [decide_eq_true_eq]
  rintro rfl
  exact nulFree member

/-- In a UTF-8 locale a text that is not valid is dropped, any other is kept. -/
theorem ensureUtf8_eq (utf8Locale : ∀ text, Utf8.validate text = false → localeToUtf8 text = none)
    (text : List UInt8) :
    ensureUtf8 localeToUtf8 text = if Utf8.validate text = true then text else [] := by
  unfold ensureUtf8
  cases valid : Utf8.validate text with
  | false => simp [utf8Locale text valid]
  | true => simp

/-- What is sent and what waits is never more than what was read. -/
theorem fold_length_le (utf8Locale : ∀ text, Utf8.validate text = false → localeToUtf8 text = none)
    {reads : List Read} (nulFree : ∀ read ∈ reads, 0 ∉ read.text) (state : StreamState) :
    (reads.foldl (StreamState.read localeToUtf8) state).sent.length +
        (reads.foldl (StreamState.read localeToUtf8) state).buf.length ≤
      state.sent.length + state.buf.length + (texts reads).length := by
  induction reads generalizing state with
  | nil => exact Nat.le_refl _
  | cons read reads ih =>
    have rest := ih (fun other later => nulFree other (List.mem_cons_of_mem _ later))
      (state.read localeToUtf8 read)
    have own : readString read.text = read.text :=
      readString_of_nulFree (nulFree read List.mem_cons_self)
    have step : (state.read localeToUtf8 read).sent.length +
        (state.read localeToUtf8 read).buf.length ≤
          state.sent.length + state.buf.length + read.text.length := by
      unfold StreamState.read
      rw [own]
      split
      · rw [ensureUtf8_eq utf8Locale]
        split <;> simp <;> omega
      · simp [Nat.add_assoc]
    rw [List.foldl_cons, texts_cons, List.length_append]
    omega

/-- **One stream keeps its text exactly when its flushes settle.** A flush that is not valid
loses bytes, which no later read makes up for. -/
theorem fold_kept_iff (utf8Locale : ∀ text, Utf8.validate text = false → localeToUtf8 text = none)
    {reads : List Read} (nulFree : ∀ read ∈ reads, 0 ∉ read.text) (state : StreamState) :
    ((reads.foldl (StreamState.read localeToUtf8) state).sent =
        state.sent ++ (state.buf ++ texts reads) ∧
      (reads.foldl (StreamState.read localeToUtf8) state).buf = []) ↔
      Settles state.timeout state.buf reads := by
  induction reads generalizing state with
  | nil =>
    rw [Settles, List.foldl_nil, texts_nil, List.append_nil]
    constructor
    · exact And.right
    · intro empty
      exact ⟨by rw [empty, List.append_nil], empty⟩
  | cons read reads ih =>
    have laterFree := fun other later => nulFree other (List.mem_cons_of_mem read later)
    have own : readString read.text = read.text :=
      readString_of_nulFree (nulFree read List.mem_cons_self)
    have rest := ih laterFree (state.read localeToUtf8 read)
    have bound := fold_length_le utf8Locale laterFree (state.read localeToUtf8 read)
    rw [List.foldl_cons, Settles, texts_cons]
    by_cases onTime : state.timeout ≤ read.now
    · have flush : state.read localeToUtf8 read =
          ⟨toGint read.now, [], state.sent ++
            if Utf8.validate (state.buf ++ read.text) = true then state.buf ++ read.text
            else []⟩ := by
        rw [StreamState.read, if_pos onTime, own, ensureUtf8_eq utf8Locale]
      rw [if_pos onTime]
      rw [flush] at rest bound ⊢
      by_cases valid : Utf8.validate (state.buf ++ read.text) = true
      · rw [if_pos valid] at rest ⊢
        rw [← rest]
        simp only [valid, true_and, List.nil_append, List.append_assoc]
      · rw [if_neg valid] at bound ⊢
        refine iff_of_false ?_ fun settled => valid settled.1
        rintro ⟨sent, empty⟩
        have lost : state.buf ++ read.text = [] := by
          refine List.eq_nil_of_length_eq_zero ?_
          simp only [sent, empty, List.length_append, List.length_nil] at bound
          rw [List.length_append]
          omega
        rw [lost] at valid
        exact valid Utf8.validate_nil
    · have wait : state.read localeToUtf8 read =
          { state with buf := state.buf ++ read.text } := by
        rw [StreamState.read, if_neg onTime, own]
      rw [if_neg onTime]
      rw [wait] at rest ⊢
      rw [← rest]
      simp only [List.append_assoc]

end Fold

section Task

variable {localeToUtf8 : List UInt8 → Option (List UInt8)}

/-- The state of a task when its process has ended and the pipes are drained. -/
theorem running_drained (localeToUtf8 : List UInt8 → Option (List UInt8)) {jid : String}
    (identified : jid ≠ "") (runId frac date : String) (events : List Event)
    (pending : Stream → Option Read) : Running localeToUtf8
      (drain localeToUtf8 (drain localeToUtf8
        (events.foldl (handle localeToUtf8) (jobRunFlow (jobNew jid runId frac) date))
        .stdout (pending .stdout)) .stderr (pending .stderr)) jid (allReads events pending) := by
  have ended := (((running_start localeToUtf8 jid runId frac date).events
    identified events).drain identified .stdout (pending .stdout)).drain identified .stderr
      (pending .stderr)
  have same : (fun source => (([] ++ readsOf source events) ++
      (if Stream.stdout = source then (pending .stdout).toList else [])) ++
      (if Stream.stderr = source then (pending .stderr).toList else [])) =
      allReads events pending := by
    funext source
    cases source <;> simp [allReads]
  rw [same] at ended
  exact ended

/-- A task has sent what it read from a stream exactly when the reads are cut clean. -/
theorem Running.kept_iff
    (utf8Locale : ∀ text, Utf8.validate text = false → localeToUtf8 text = none)
    {job : GebrdJob} {jid : String} {reads : Stream → List Read}
    (task : Running localeToUtf8 job jid reads) {source : Stream}
    (nulFree : ∀ read ∈ reads source, 0 ∉ read.text) :
    CutsClean (reads source) ↔
      sentText source job.messages = texts (reads source) ∧ job.buf source = [] := by
  have kept := fold_kept_iff utf8Locale nulFree ⟨0, [], []⟩
  rw [← task.streams source] at kept
  rw [cutsClean_iff, ← settles_iff_clean Utf8.validate_nil]
  exact kept.symm

/-- **No output of a task is lost exactly when the reads of both streams are cut clean**: for every
sequence of reads at any times, in a UTF-8 locale. -/
theorem taskRun_outputKept_iff
    (utf8Locale : ∀ text, Utf8.validate text = false → localeToUtf8 text = none)
    {jid : String} (identified : jid ≠ "") (runId frac startDate finishDate : String)
    (events : List Event) (pending : Stream → Option Read) (status : ℕ)
    (nulFree : ∀ source, ∀ read ∈ allReads events pending source, 0 ∉ read.text) :
    OutputKept (taskRun localeToUtf8 jid runId frac startDate events pending status finishDate)
        (allReads events pending) ↔
      ∀ source, CutsClean (allReads events pending source) := by
  have ended := running_drained localeToUtf8 identified runId frac startDate
    events pending
  have settled := fun source => ended.kept_iff utf8Locale (nulFree source)
  unfold taskRun finishedWatch
  dsimp only
  rw [jobProcessFinished_running ended.running]
  constructor
  · rintro ⟨⟨log, status, parameter, messages, -, -, texts, -⟩, drained⟩ source
    obtain ⟨rfl, -⟩ := List.append_inj' messages rfl
    exact (settled source).2 ⟨texts source, drained source⟩
  · intro clean
    refine ⟨⟨_, _, _, rfl, ?_, rfl, fun source => ((settled source).1 (clean source)).1,
      ended.stored⟩, fun source => ((settled source).1 (clean source)).2⟩
    unfold endStatus
    split_ifs <;> simp

end Task

section Accent

/-- `g_locale_to_utf8` in a UTF-8 locale: a check, and no change. -/
def utf8LocaleToUtf8 (text : List UInt8) : Option (List UInt8) :=
  if Utf8.validate text = true then some text else none

theorem utf8LocaleToUtf8_invalid (text : List UInt8) (invalid : Utf8.validate text = false) :
    utf8LocaleToUtf8 text = none := by
  rw [utf8LocaleToUtf8, if_neg (by rw [invalid]; exact Bool.false_ne_true)]

/-- A task that writes an accented letter in one piece, and one letter to the other pipe. -/
theorem taskRun_outputKept_iff_accent :
    OutputKept (taskRun utf8LocaleToUtf8 "id" "1" "1:1" "start"
        [.readyRead .stdout ⟨[0xC3, 0xA9], 10⟩]
        (fun | .stdout => none | .stderr => some ⟨[0x78], 11⟩) 0 "end")
      (allReads [.readyRead .stdout ⟨[0xC3, 0xA9], 10⟩]
        fun | .stdout => none | .stderr => some ⟨[0x78], 11⟩) ↔
      ∀ source, CutsClean (allReads [.readyRead .stdout ⟨[0xC3, 0xA9], 10⟩]
        (fun | .stdout => none | .stderr => some ⟨[0x78], 11⟩) source) :=
  taskRun_outputKept_iff utf8LocaleToUtf8_invalid (by decide) "1" "1:1" "start" "end" _ _ 0
    (by intro source; cases source <;> decide)

/-- **The letter cut in two is lost**, though the clock runs forward and the whole output is
valid: each of its bytes becomes an empty `OUT` message. -/
theorem taskRun_accent_lost :
    let events := [Event.readyRead .stdout ⟨[0xC3], 10⟩, .readyRead .stdout ⟨[0xA9], 11⟩]
    let pending : Stream → Option Read := fun _ => none
    Utf8.validate (texts (allReads events pending .stdout)) = true ∧
      ¬ OutputKept (taskRun utf8LocaleToUtf8 "id" "1" "1:1" "start" events pending 0 "end")
        (allReads events pending) := by
  refine ⟨by decide, ?_⟩
  rintro ⟨⟨log, status, parameter, messages, -, -, kept, -⟩, -⟩
  have start : [Message.sta "id" "running" "start" "1" "1:1", .out .stdout "id" [] "1" "1:1",
      .out .stdout "id" [] "1" "1:1"] = log := (List.append_inj' messages rfl).1
  have stdout := kept .stdout
  rw [← start] at stdout
  exact absurd stdout (by decide)

end Accent

end Gebr.Daemon
