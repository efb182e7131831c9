import Ciron.Data.Lines
import Ciron.Data.Text
import Ciron.Logs.Response
import Ciron.Logs.Streams

/-! # `cironctl logs`

The command prints one line for every entry of the response.  `logs_printed`: split into lines
again and picked out by its prefix, what it prints about a stream is what the children wrote to
that stream, in order. -/

namespace Ciron

open Data Transition

/-- The `println!` for an entry, without the newline. -/
def printedEntry (entry : LogEntry) : String := "[" ++ entry.source ++ "] " ++ entry.message

/-- What `Commands::Logs` prints once the daemon has answered, or the error that it ends with. -/
def logsCommand (response : Except Status (List LogEntry)) : Except String String :=
  match response with
  | .ok entries => .ok (unlines (entries.map printedEntry))
  | .error _ => .error "Failed to get logs"

/-- The lines of the output that have the prefix of a stream, without it. -/
def linesFrom (source : LogSource) (output : String) : List String :=
  (splitChar '\n' output).filterMap (stripPrefix ("[" ++ source.asStr ++ "] "))

/-! ## Lines have no newlines -/

theorem newline_not_mem_streamLines {bytes : List UInt8} {failure : Option String} {line : List UInt8}
    (member : line ∈ streamLines { bytes, failure }) : newline ∉ line := by
  induction hlength : bytes.length using Nat.strong_induction_on generalizing bytes with
  | _ length ih =>
    by_cases inside : newline ∈ bytes
    · obtain ⟨first, rest, rfl, whole⟩ := List.eq_append_cons_of_mem inside
      rw [streamLines_line whole, List.mem_cons] at member
      cases member with
      | inl here =>
        rw [here, dropReturn]
        split
        · exact fun last => whole (List.mem_of_mem_dropLast last)
        · exact whole
      | inr later =>
        refine ih rest.length ?_ later rfl
        rw [← hlength, List.length_append, List.length_cons]
        omega
    · rw [streamLines_part inside] at member
      split at member
      · rwa [List.mem_singleton.mp member]
      · cases member

/-- In UTF-8 a newline is the byte of a newline, wherever it stands. -/
theorem decode_no_newline {bytes : List UInt8} {text : String} (h : decode bytes = some text)
    (absent : newline ∉ bytes) : '\n' ∉ text.toList := by
  intro member
  rw [decode, String.fromUTF8?] at h
  split at h
  · rename_i valid
    obtain rfl := Option.some.inj h
    have encoded : (String.fromUTF8 ⟨bytes.toArray⟩ valid).toList.utf8Encode = ⟨bytes.toArray⟩ :=
      String.utf8Encode_toList
    have same : (String.fromUTF8 ⟨bytes.toArray⟩ valid).toList.flatMap String.utf8EncodeChar = bytes := by
      rw [List.utf8Encode] at encoded
      simpa using congrArg (fun array => array.data.toList) encoded
    refine absent (same ▸ List.mem_flatMap.mpr ⟨'\n', member, ?_⟩)
    decide
  · cases h

theorem readable_no_newline {pipe : Pipe} {text : String} (member : text ∈ readable (streamLines pipe)) :
    '\n' ∉ text.toList := by
  obtain ⟨line, taken, decoded⟩ := List.mem_filterMap.mp member
  exact decode_no_newline decoded (newline_not_mem_streamLines (List.takeWhile_subset _ taken))

/-! ## From the pipe to the terminal -/

theorem stripPrefix_printed (source : LogSource) (line : LogLine) :
    stripPrefix ("[" ++ source.asStr ++ "] ") (printedEntry (toLogEntry line)) =
      if line.source = source then some line.message else none := by
  obtain ⟨_, other, message⟩ := line
  cases source with
  | stdout =>
    cases other with
    | stdout => exact stripPrefix_self "[stdout] " message
    | stderr => exact stripPrefix_other "[stdout] " "[stderr] " message (by decide)
  | stderr =>
    cases other with
    | stdout => exact stripPrefix_other "[stderr] " "[stdout] " message (by decide)
    | stderr => exact stripPrefix_self "[stderr] " message

/-- The lines of the output are those of the entries. -/
theorem linesFrom_printed {lines : List LogLine} (whole : ∀ line ∈ lines, '\n' ∉ line.message.toList)
    (source : LogSource) :
    linesFrom source (unlines (lines.map fun line => printedEntry (toLogEntry line))) =
      (lines.filter (·.source = source)).map (·.message) := by
  have printed : ∀ text ∈ lines.map fun line => printedEntry (toLogEntry line), '\n' ∉ text.toList := by
    refine List.forall_mem_map.mpr fun line member => ?_
    have message := whole line member
    cases source : line.source <;> simp [printedEntry, toLogEntry, source, LogSource.asStr, message]
  have texts : splitChar '\n' (unlines (lines.map fun line => printedEntry (toLogEntry line))) =
      (lines.map fun line => printedEntry (toLogEntry line)) ++ [""] := by
    rw [splitChar, splitOn_unlines printed]
    simp
  have nothing : stripPrefix ("[" ++ source.asStr ++ "] ") "" = none := by
    cases source <;> decide
  rw [linesFrom, texts, List.filterMap_append, List.filterMap_cons, nothing, List.filterMap_nil, List.append_nil,
    List.filterMap_map]
  clear whole printed texts
  induction lines with
  | nil => rfl
  | cons line lines ih =>
    rw [List.filterMap_cons, Function.comp_apply, stripPrefix_printed, List.filter_cons, ih]
    by_cases here : line.source = source <;> simp [here]

namespace Pipeline

variable {nextLine : NextLine} {s : Pipeline}

theorem Kept.no_newline (h : Kept s) {p : Nat × LogLine} (member : p ∈ s.lines) :
    '\n' ∉ p.2.message.toList := by
  have found := List.getElem?_eq_getElem (h.known p member)
  have kept := (h.reads p.1 _ found).kept [] _ fun _ => ⟨rfl, rfl⟩
  refine readable_no_newline (kept ▸ List.mem_append_left _ (List.mem_map_of_mem ?_))
  exact List.mem_map.mpr ⟨p, List.mem_filter.mpr ⟨member, by simp⟩, rfl⟩

/-- A reader that has its stream for itself has appended all lines of that stream. -/
theorem Kept.alone (h : Kept s) {r : Nat} {reader : LogReader} (found : s.readers[r]? = some reader)
    (alone : ∀ (r' : Nat) (reader' : LogReader), s.readers[r']? = some reader' →
      reader'.source = reader.source → r' = r) :
    (s.lines.filter (·.2.source = reader.source)).map (·.2) = linesOf r s.lines := by
  rw [linesOf]
  refine congrArg _ (List.filter_congr fun p member => ?_)
  have own := List.getElem?_eq_getElem (h.known p member)
  have source := (h.reads p.1 _ own).own p.2 (List.mem_map.mpr ⟨p, List.mem_filter.mpr ⟨member, by simp⟩, rfl⟩)
  rw [decide_eq_decide, source]
  refine ⟨alone p.1 _ own, fun same => ?_⟩
  subst same
  rw [own, Option.some.injEq] at found
  rw [found]

/-- What `cironctl logs` prints about a stream are the latest lines of that stream; where one reader
    has the stream for itself and nothing has left the buffer, they are the stream as the
    child wrote it, as far as the reader got. -/
theorem logs_printed (law : YieldsLines nextLine) {name : String} {config : ProgramConfig}
    (forward : config.logForward = true) {trace : List (Pipeline × PipelineAction)}
    (run : Exec (step nextLine) (start name config) trace s) (lines : Int32) :
    ∃ output, logsCommand (getLogs name (some (config, s.logs.buffer.map (·.line))) lines) = .ok output ∧
      (∀ source, linesFrom source output =
        ((s.lines.rtake (LogCall.window lines)).filter (·.2.source = source)).map (·.2.message)) ∧
      ∀ (r : Nat) (reader : LogReader), s.readers[r]? = some reader →
        (∀ (r' : Nat) (reader' : LogReader), s.readers[r']? = some reader' →
          reader'.source = reader.source → r' = r) →
        s.lines.length ≤ LogCall.window lines →
        linesFrom reader.source output <+: readable (streamLines reader.stream) ∧
        (reader.phase = .done → linesFrom reader.source output = readable (streamLines reader.stream)) := by
  have sound := reached_sound law forward run
  have printed : ∀ source, linesFrom source (unlines
      (((s.lines.rtake (LogCall.window lines)).map (·.2)).map fun line => printedEntry (toLogEntry line))) =
      ((s.lines.rtake (LogCall.window lines)).filter (·.2.source = source)).map (·.2.message) := by
    intro source
    have whole : ∀ line ∈ (s.lines.rtake (LogCall.window lines)).map (·.2), '\n' ∉ line.message.toList :=
      List.forall_mem_map.mpr fun p member => sound.kept.no_newline (List.mem_of_mem_drop member)
    rw [linesFrom_printed whole, List.filter_map, List.map_map]
    rfl
  refine ⟨_, ?_, printed, fun r reader found alone fits => ?_⟩
  · rw [sound.getLogs forward, logsCommand, List.map_map, List.map_map]
    rfl
  · have reads := (sound.kept.reads r reader found).kept [] reader.pipe.failure fun _ => ⟨rfl, rfl⟩
    have every : s.lines.rtake (LogCall.window lines) = s.lines := by
      rw [List.rtake, Nat.sub_eq_zero_of_le fits, List.drop_zero]
    have own : (s.lines.filter (·.2.source = reader.source)).map (·.2.message) =
        (linesOf r s.lines).map (·.message) := by
      rw [← sound.kept.alone found alone, List.map_map]
      rfl
    rw [printed, every, own, LogReader.stream, ← List.append_nil reader.written, reads]
    refine ⟨List.prefix_append .., fun done => ?_⟩
    rw [LogReader.ahead, done, List.append_nil]

/-- The output of two children's streams, and of one of them in particular. -/
theorem logs_printed_two : ∃ (trace : List (Pipeline × PipelineAction)) (s : Pipeline),
    Exec (step Ciron.nextLine) (start "web" { command := "web", logForward := true }) trace s ∧
    s.lines.map (·.2.message) = ["no", "hi"] ∧
    ∃ output, logsCommand (getLogs "web"
        (some ({ command := "web", logForward := true }, s.logs.buffer.map (·.line))) 50) = .ok output ∧
      (∀ source, linesFrom source output =
        ((s.lines.rtake (LogCall.window 50)).filter (·.2.source = source)).map (·.2.message)) ∧
      ∀ (r : Nat) (reader : LogReader), s.readers[r]? = some reader →
        (∀ (r' : Nat) (reader' : LogReader), s.readers[r']? = some reader' →
          reader'.source = reader.source → r' = r) →
        s.lines.length ≤ LogCall.window 50 →
        linesFrom reader.source output <+: readable (streamLines reader.stream) ∧
        (reader.phase = .done → linesFrom reader.source output = readable (streamLines reader.stream)) := by
  obtain ⟨s, hs, messages⟩ : ∃ s, runs (step Ciron.nextLine)
      (start "web" { command := "web", logForward := true })
      [.spawn, .write 0 [104, 105], .write 1 [110, 111, 10], .close 0 none, .read 0 7, .read 1 8, .append 1,
        .append 0, .broadcast 0, .read 0 9] = some s ∧ s.lines.map (·.2.message) = ["no", "hi"] := ⟨_, rfl, rfl⟩
  obtain ⟨trace, run, _⟩ := exec_of_runs hs
  exact ⟨trace, s, run, messages, logs_printed nextLine_yieldsLines rfl run 50⟩

end Pipeline

end Ciron
