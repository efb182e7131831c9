import Ciron.Data.History
import Ciron.Logs.Pipeline
import Ciron.Logs.Response
import Ciron.Transition.Budget

/-! # The streams of a program

* `streams_kept`: in any order of steps what each reader has appended is the beginning of its
  stream, in order.
* `stream_drained`: a reader can always go on until its pipe holds no whole line. -/

namespace Ciron

open Data Transition

theorem linesOf_concat (r : Nat) (lines : List (Nat × LogLine)) (r' : Nat) (line : LogLine) :
    linesOf r (lines ++ [(r', line)]) = linesOf r lines ++ if r' = r then [line] else [] := by
  by_cases same : r' = r <;> simp [linesOf, same]

theorem linesOf_nil {r : Nat} {lines : List (Nat × LogLine)} (h : ∀ p ∈ lines, p.1 ≠ r) :
    linesOf r lines = [] := by
  simpa [linesOf] using h

namespace Pipeline

/-- Each reader keeps to its stream, and broadcasts what it has appended, in that order. -/
structure Kept (s : Pipeline) : Prop where
  reads : ∀ (r : Nat) (reader : LogReader), s.readers[r]? = some reader → reader.Reads (linesOf r s.lines)
  known : ∀ p ∈ s.lines, p.1 < s.readers.length
  sent : ∀ r, linesOf r s.sent ++ ((s.logs.pending r).map (·.line)).toList = linesOf r s.lines
  appended : s.logs.appended.map (·.line) = s.lines.map (·.2)
  broadcasts : s.logs.broadcasts.map (·.line) = s.sent.map (·.2)

theorem start_kept (name : String) (config : ProgramConfig) : Kept (start name config) :=
  ⟨nofun, nofun, fun _ => rfl, rfl, rfl⟩

/-- One reader moves on and has appended no line by that. -/
theorem Kept.set {s : Pipeline} (h : Kept s) {r : Nat} {reader reader' : LogReader}
    (found : s.readers[r]? = some reader) (reads : ∀ lines, reader.Reads lines → reader'.Reads lines) :
    Kept { s with readers := s.readers.set r reader' } := by
  refine ⟨fun other reader'' entry => ?_, by simpa using h.known, h.sent, h.appended, h.broadcasts⟩
  rcases getElem?_set_cases entry with ⟨rfl, rfl⟩ | ⟨_, old⟩
  · exact reads _ (h.reads r reader found)
  · exact h.reads other reader'' old

/-- A reader appends the line that it holds. -/
theorem Kept.append {s : Pipeline} (h : Kept s) {r : Nat} {reader : LogReader} {line : LogLine} {logs : Logs}
    (found : s.readers[r]? = some reader) (holds : reader.phase = .holding line)
    (appends : s.logs.Stepped (.append r line) logs) :
    Kept { s with
      logs
      readers := s.readers.set r { reader with phase := .reading }
      lines := s.lines ++ [(r, line)] } := by
  obtain ⟨entry, rfl, idle, pending, appended, broadcasts⟩ := appends.append_inv
  have bound := (List.getElem?_eq_some_iff.mp found).1
  refine ⟨fun other reader' found' => ?_, fun p member => ?_, fun other => ?_, ?_, ?_⟩
  · rw [linesOf_concat]
    rcases getElem?_set_cases found' with ⟨rfl, rfl⟩ | ⟨different, old⟩
    · rw [if_pos rfl]
      exact (h.reads r reader found).append holds
    · rw [if_neg different, List.append_nil]
      exact h.reads other reader' old
  · rw [List.length_set]
    rcases List.mem_append.mp member with old | new
    · exact h.known p old
    · cases List.mem_singleton.mp new
      exact bound
  · rw [linesOf_concat, ← h.sent other, pending, Function.update_apply]
    by_cases same : other = r
    · subst same
      simp [idle]
    · simp [same, Ne.symm same]
  · simp [appended, h.appended]
  · rw [broadcasts, h.broadcasts]

theorem Kept.broadcast {s : Pipeline} (h : Kept s) {r : Nat} {entry : Entry} {logs : Logs}
    (pends : s.logs.pending r = some entry) (broadcasts : s.logs.Stepped (.broadcast r) logs) :
    Kept { s with logs, sent := s.sent ++ [(r, entry.line)] } := by
  obtain ⟨pending, appended, sent⟩ := broadcasts.broadcast_inv pends
  refine ⟨h.reads, h.known, fun other => ?_, by rw [appended, h.appended], by simp [sent, h.broadcasts]⟩
  rw [linesOf_concat, ← h.sent other, pending, Function.update_apply]
  by_cases same : other = r
  · subst same
    simp [pends]
  · simp [same, Ne.symm same]

variable {nextLine}

theorem Kept.step (law : YieldsLines nextLine) {s t : Pipeline} {a : PipelineAction} (h : Kept s)
    (forward : s.logs.config.logForward = true) (hstep : s.step nextLine a = some t) : Kept t := by
  cases step_stepped nextLine hstep with
  | spawns =>
    refine ⟨fun r reader found => ?_, fun p member => ?_, h.sent, h.appended, h.broadcasts⟩
    · by_cases old : r < s.readers.length
      · rw [List.getElem?_append_left old] at found
        exact h.reads r reader found
      · -- nothing was appended in the name of a new reader
        have nothing : linesOf r s.lines = [] := linesOf_nil fun p member same => by
          have := h.known p member
          omega
        rw [List.getElem?_append_right (by omega)] at found
        have new := List.mem_of_getElem? found
        simp only [List.mem_cons, List.not_mem_nil, or_false] at new
        rw [nothing]
        rcases new with rfl | rfl <;> exact LogReader.Reads.fresh _
    · have := h.known p member
      simp only [List.length_append]
      omega
  | writes found writes => exact h.set found fun _ reads => reads.write writes
  | closes found closes => exact h.set found fun _ reads => reads.close closes
  | reads found idle reads =>
    rw [forward] at reads
    exact h.set found fun _ kept => kept.read law reads
  | appends found holds appends => exact h.append found holds (Logs.step_stepped appends)
  | broadcasts pends broadcasts => exact h.broadcast pends (Logs.step_stepped broadcasts)
  | serves other silent serves =>
    cases Logs.step_stepped serves with
    | appends => exact absurd rfl (other _ _)
    | broadcasts => exact absurd rfl (silent _)
    | snapshots | subscribes | streams => exact ⟨h.reads, h.known, h.sent, h.appended, h.broadcasts⟩

/-- What the logs do in a step of the pipeline, if they do anything. -/
theorem step_logs {s t : Pipeline} {a : PipelineAction} (hstep : s.step nextLine a = some t) :
    t.logs = s.logs ∨ ∃ action, s.logs.step action = some t.logs := by
  cases step_stepped nextLine hstep with
  | spawns | writes | closes | reads => exact .inl rfl
  | appends _ _ step | broadcasts _ step | serves _ _ step => exact .inr ⟨_, step⟩

/-- What holds of all readers in any order of steps. -/
structure Sound (config : ProgramConfig) (s : Pipeline) : Prop where
  kept : Kept s
  config : s.logs.config = config
  buffered : s.logs.Buffered

theorem reached_sound (law : YieldsLines nextLine) {name : String} {config : ProgramConfig}
    (forward : config.logForward = true) {trace : List (Pipeline × PipelineAction)} {s : Pipeline}
    (run : Exec (step nextLine) (start name config) trace s) : Sound config s := by
  refine (run.invariant (fun s a t h hstep => ?_) ⟨start_kept name config, rfl, Logs.start_buffered name config⟩).1
  refine ⟨h.kept.step law (h.config ▸ forward) hstep, ?_, ?_⟩ <;> rcases step_logs hstep with same | ⟨action, logs⟩
  · rw [same, h.config]
  · rw [(Logs.step_stepped logs).config, h.config]
  · rw [same]
    exact h.buffered
  · exact h.buffered.step logs

/-- A reply lists the latest lines of all readers. -/
theorem Sound.getLogs {name : String} {config : ProgramConfig} {s : Pipeline} (h : Sound config s)
    (forward : config.logForward = true) (lines : Int32) :
    getLogs name (some (config, s.logs.buffer.map (·.line))) lines =
      .ok ((s.lines.rtake (LogCall.window lines)).map fun p => toLogEntry p.2) := by
  have same : (s.logs.appended.rtake (LogCall.window lines)).map (·.line) =
      (s.lines.rtake (LogCall.window lines)).map (·.2) := by
    have lengths := congrArg List.length h.kept.appended
    rw [List.length_map, List.length_map] at lengths
    rw [List.rtake, List.rtake, List.map_drop, List.map_drop, h.kept.appended, lengths]
  have replies := congrArg (List.map toLogEntry) same
  simp only [List.map_map, Function.comp_def] at replies
  rw [LogCall.getLogs_latest forward h.buffered, replies]

/-- In any order of steps each reader has appended the lines of its stream from the first one on,
    all that can be read of it once the reader is through, and broadcast them in the same order;
    and a reply lists the latest lines of all readers as they were appended. -/
theorem streams_kept (law : YieldsLines nextLine) {name : String} {config : ProgramConfig}
    (forward : config.logForward = true) {trace : List (Pipeline × PipelineAction)} {s : Pipeline}
    (run : Exec (step nextLine) (start name config) trace s) :
    s.logs.appended.map (·.line) = s.lines.map (·.2) ∧
    s.logs.broadcasts.map (·.line) = s.sent.map (·.2) ∧
    getLogs name (some (config, s.logs.buffer.map (·.line))) 0 =
      .ok ((s.lines.rtake logBufferCapacity).map fun p => toLogEntry p.2) ∧
    (∀ p ∈ s.lines, ∃ reader, s.readers[p.1]? = some reader ∧ p.2.source = reader.source) ∧
    ∀ (r : Nat) (reader : LogReader), s.readers[r]? = some reader →
      linesOf r s.sent <+: linesOf r s.lines ∧
      (linesOf r s.lines).map (·.message) <+: readable (streamLines reader.stream) ∧
      (reader.phase = .done → (linesOf r s.lines).map (·.message) = readable (streamLines reader.stream)) := by
  have sound := reached_sound law forward run
  refine ⟨sound.kept.appended, sound.kept.broadcasts, ?_, fun p member => ?_, fun r reader found => ?_⟩
  · exact sound.getLogs forward 0
  · have found := List.getElem?_eq_getElem (sound.kept.known p member)
    refine ⟨_, found, (sound.kept.reads p.1 _ found).own p.2 ?_⟩
    exact List.mem_map.mpr ⟨p, List.mem_filter.mpr ⟨member, by simp⟩, rfl⟩
  · have reads := sound.kept.reads r reader found
    have kept := reads.kept [] reader.pipe.failure fun _ => ⟨rfl, rfl⟩
    rw [List.append_nil] at kept
    refine ⟨⟨_, sound.kept.sent r⟩, ⟨_, kept.symm⟩, fun done => ?_⟩
    rw [LogReader.stream, kept, LogReader.ahead, done, List.append_nil]

/-- Two streams, of which one has more to read; the other's reader was first to read. -/
theorem streams_kept_two : ∃ (trace : List (Pipeline × PipelineAction)) (s : Pipeline),
    Exec (step Ciron.nextLine) (start "web" { command := "web", logForward := true }) trace s ∧
    s.lines.map (·.2.message) = ["hi", "no"] ∧
    s.logs.appended.map (·.line) = s.lines.map (·.2) ∧
    s.logs.broadcasts.map (·.line) = s.sent.map (·.2) ∧
    getLogs "web" (some ({ command := "web", logForward := true }, s.logs.buffer.map (·.line))) 0 =
      .ok ((s.lines.rtake logBufferCapacity).map fun p => toLogEntry p.2) ∧
    (∀ p ∈ s.lines, ∃ reader, s.readers[p.1]? = some reader ∧ p.2.source = reader.source) ∧
    ∀ (r : Nat) (reader : LogReader), s.readers[r]? = some reader →
      linesOf r s.sent <+: linesOf r s.lines ∧
      (linesOf r s.lines).map (·.message) <+: readable (streamLines reader.stream) ∧
      (reader.phase = .done → (linesOf r s.lines).map (·.message) = readable (streamLines reader.stream)) := by
  obtain ⟨s, hs, messages⟩ : ∃ s, runs (step Ciron.nextLine)
      (start "web" { command := "web", logForward := true })
      [.spawn, .write 0 [104, 105, 10, 33, 10], .write 1 [110, 111, 10], .read 1 7, .read 0 8, .append 0,
        .append 1, .broadcast 1] = some s ∧ s.lines.map (·.2.message) = ["hi", "no"] := ⟨_, rfl, rfl⟩
  obtain ⟨trace, run, _⟩ := exec_of_runs hs
  exact ⟨trace, s, run, messages, streams_kept nextLine_yieldsLines rfl run⟩

/-! ## The reader keeps up -/

/-- The steps that a reader takes by itself. -/
def ofReader (r : Nat) : PipelineAction → Bool
  | .read other _ | .append other | .broadcast other => other == r
  | _ => false

/-- The reader has nothing left to do: it is through, or its pipe is open and holds no whole
    line. -/
structure Waits (s : Pipeline) (r : Nat) (reader : LogReader) : Prop where
  found : s.readers[r]? = some reader
  idle : s.logs.pending r = none
  waits : reader.phase = .done ∨
    reader.phase = .reading ∧ newline ∉ reader.pipe.bytes ∧ reader.closed = false

/-- The steps that a reader has before it at most, the bytes of its pipe apart. -/
def turns : ReaderPhase → Nat
  | .reading => 1
  | .holding _ => 3
  | .done => 0

def turnsLeft (s : Pipeline) (r : Nat) (reader : LogReader) : Nat :=
  4 * reader.pipe.bytes.length + turns reader.phase + (s.logs.pending r).toList.length

theorem turns_read {reader reader' : LogReader} (law : YieldsLines nextLine) {now : Nat}
    (hstep : reader.read nextLine true now = some reader') :
    4 * reader'.pipe.bytes.length + turns reader'.phase < 4 * reader.pipe.bytes.length + turns reader.phase := by
  obtain ⟨reading, returns, rfl⟩ := LogReader.read_inv hstep
  obtain ⟨_, within, shorter, _⟩ := nextLine_takesLine law returns
  cases result : (nextLine reader.pipe).1 with
  | error kind =>
    simp only [reading, turns]
    omega
  | ok text =>
    cases text with
    | none =>
      simp only [reading, turns]
      omega
    | some message =>
      have := shorter message result
      simp only [reading, turns]
      omega

/-- A reader that does not wait takes a step of its own. -/
theorem waits_or_step (law : YieldsLines nextLine) {s : Pipeline} {r : Nat} {reader : LogReader}
    (forward : s.logs.config.logForward = true) (found : s.readers[r]? = some reader) :
    Waits s r reader ∨ ∃ a t reader', ofReader r a = true ∧ s.step nextLine a = some t ∧
      t.readers[r]? = some reader' ∧ reader'.written = reader.written ∧ reader'.closed = reader.closed ∧
      turnsLeft t r reader' < turnsLeft s r reader := by
  cases pends : s.logs.pending r with
  | some entry =>
    obtain ⟨logs, hlogs⟩ : ∃ logs, s.logs.step (.broadcast r) = some logs := by
      simp [Logs.step, pends]
    obtain ⟨pending, _, _⟩ := (Logs.step_stepped hlogs).broadcast_inv pends
    refine .inr ⟨.broadcast r, { s with logs, sent := s.sent ++ [(r, entry.line)] }, reader,
      by simp [ofReader], ?_, found, rfl, rfl, ?_⟩
    · simp only [step, pends, hlogs, Option.map_some]
    · simp [turnsLeft, pends, pending]
  | none =>
    cases phase : reader.phase with
    | done => exact .inl ⟨found, pends, .inl phase⟩
    | holding line =>
      obtain ⟨logs, hlogs⟩ : ∃ logs, s.logs.step (.append r line) = some logs := by
        simp [Logs.step, forward, pends]
      obtain ⟨entry, _, _, pending, _, _⟩ := (Logs.step_stepped hlogs).append_inv
      refine .inr ⟨.append r, { s with
          logs
          readers := s.readers.set r { reader with phase := .reading }
          lines := s.lines ++ [(r, line)] }, { reader with phase := .reading },
        by simp [ofReader], ?_, getElem?_set_here _ found, rfl, rfl, ?_⟩
      · simp only [step, found, phase, hlogs, Option.map_some]
      · simp [turnsLeft, pends, pending, phase, turns]
    | reading =>
      by_cases returns : newline ∈ reader.pipe.bytes ∨ reader.closed = true
      · obtain ⟨reader', reads⟩ : ∃ reader', reader.read nextLine true 0 = some reader' := by
          simp only [LogReader.read, phase, if_pos returns]
          split <;> exact ⟨_, rfl⟩
        have fewer := turns_read law reads
        obtain ⟨_, _, same⟩ := LogReader.read_inv reads
        refine .inr ⟨.read r 0, { s with readers := s.readers.set r reader' }, reader', by simp [ofReader],
          ?_, getElem?_set_here _ found, by rw [same], by rw [same], ?_⟩
        · simp only [step, pends, turn, found, forward, Option.bind_some, reads, Option.map_some]
        · simp only [turnsLeft]
          omega
      · obtain ⟨whole, opened⟩ := not_or.mp returns
        exact .inl ⟨found, pends, .inr ⟨phase, whole, Bool.eq_false_of_not_eq_true opened⟩⟩

/-- The lines of a stream that is closed or not. -/
def linesSoFar (reader : LogReader) : List (List UInt8) :=
  if reader.closed then streamLines reader.stream else (terminatedLines reader.written).map dropReturn

/-- Where a reader waits, it has appended and broadcast all that its stream had for it. -/
theorem Waits.all {s : Pipeline} {r : Nat} {reader : LogReader} (waits : Waits s r reader) (h : Kept s) :
    (linesOf r s.sent).map (·.message) = readable (linesSoFar reader) := by
  have sent := h.sent r
  rw [waits.idle, Option.map_none, Option.toList_none, List.append_nil] at sent
  rw [sent]
  have reads := h.reads r reader waits.found
  cases closed : reader.closed with
  | true =>
    have kept := reads.kept [] reader.pipe.failure fun _ => ⟨rfl, rfl⟩
    have done : reader.phase = .done := waits.waits.resolve_right fun opened => by
      rw [closed] at opened
      cases opened.2.2
    rw [List.append_nil, LogReader.ahead, done, List.append_nil] at kept
    rw [linesSoFar, closed, if_pos rfl, LogReader.stream, kept]
  | false =>
    -- a stream that were to break off here would have the whole lines only
    have kept := reads.kept [] (some "") fun shut => by rw [closed] at shut; cases shut
    have whole (bytes : List UInt8) : streamLines { bytes, failure := some "" } =
        (terminatedLines bytes).map dropReturn := by
      simp [streamLines]
    have nothing : reader.ahead [] (some "") = [] := by
      rcases waits.waits with done | ⟨reading, none, _⟩
      · rw [LogReader.ahead, done]
      · rw [LogReader.ahead, reading, List.append_nil, streamLines_part none]
        rfl
    rw [nothing, List.append_nil, List.append_nil, whole] at kept
    rw [linesSoFar, closed, if_neg (by simp), kept]

/-- A reader always gets, by steps of its own, to where it waits.  Then all that its stream had
    for it is recorded: the readable lines of the stream that is closed, the whole ones of
    those if the pipe is open. -/
theorem stream_drained (law : YieldsLines nextLine) {name : String} {config : ProgramConfig}
    (forward : config.logForward = true) {trace : List (Pipeline × PipelineAction)} {s : Pipeline}
    (run : Exec (step nextLine) (start name config) trace s) {r : Nat} {reader : LogReader}
    (found : s.readers[r]? = some reader) :
    ∃ t reader', Leads (step nextLine) (fun _ a => ofReader r a = true) s t ∧ Waits t r reader' ∧
      reader'.written = reader.written ∧ reader'.closed = reader.closed ∧
      (linesOf r t.sent).map (·.message) = readable (linesSoFar reader') := by
  let Inv (left : Nat) (t : Pipeline) : Prop := ∃ trace reader', Exec (step nextLine) (start name config) trace t ∧
    t.readers[r]? = some reader' ∧ reader'.written = reader.written ∧ reader'.closed = reader.closed ∧
    turnsLeft t r reader' = left
  let Done (t : Pipeline) : Prop := ∃ reader', Waits t r reader' ∧ reader'.written = reader.written ∧
    reader'.closed = reader.closed ∧ (linesOf r t.sent).map (·.message) = readable (linesSoFar reader')
  have more : ∀ left t, Inv left t → Done t ∨
      ∃ a u lower, ofReader r a = true ∧ t.step nextLine a = some u ∧ lower < left ∧ Inv lower u := by
    rintro left t ⟨trace, reader', run, found, written, closed, rfl⟩
    have sound := reached_sound law forward run
    rcases waits_or_step law (sound.config ▸ forward) found with
      waits | ⟨a, u, next, own, hstep, hnext, written', closed', fewer⟩
    · exact .inl ⟨reader', waits, written, closed, waits.all sound.kept⟩
    · exact .inr ⟨a, u, _, own, hstep, fewer, _, next, run.tail hstep, hnext, written'.trans written,
        closed'.trans closed, rfl⟩
  obtain ⟨t, leads, reader', done⟩ := comes_to Inv Done more ⟨trace, reader, run, found, rfl, rfl, rfl⟩
  exact ⟨t, reader', leads, done⟩

/-- A stream that breaks off in the middle of a line, while the other reader holds one. -/
theorem stream_drained_part : ∃ (trace : List (Pipeline × PipelineAction)) (s : Pipeline) (reader : LogReader),
    Exec (step Ciron.nextLine) (start "web" { command := "web", logForward := true }) trace s ∧
    s.readers[0]? = some reader ∧ reader.written = [104, 105, 10, 33] ∧
    ∃ t reader', Leads (step Ciron.nextLine) (fun _ a => ofReader 0 a = true) s t ∧ Waits t 0 reader' ∧
      reader'.written = reader.written ∧ reader'.closed = reader.closed ∧
      (linesOf 0 t.sent).map (·.message) = readable (linesSoFar reader') := by
  obtain ⟨s, reader, hs, found, written⟩ : ∃ s reader, runs (step Ciron.nextLine)
      (start "web" { command := "web", logForward := true })
      [.spawn, .write 0 [104, 105, 10, 33], .write 1 [110, 111, 10], .read 1 7, .close 0 none] = some s ∧
      s.readers[0]? = some reader ∧ reader.written = [104, 105, 10, 33] := ⟨_, _, rfl, rfl, rfl⟩
  obtain ⟨trace, run, _⟩ := exec_of_runs hs
  exact ⟨trace, s, reader, run, found, written, stream_drained nextLine_yieldsLines rfl run found⟩

end Pipeline

end Ciron
