import Ciron.Logs.GetLogs
import Ciron.Logs.Reader

/-! # All log readers of a program

Every child of a program brings a reader for its stdout and one for its stderr.  They run beside
each other, beside the children that write and beside a client.  Each reader takes a line off
its pipe, appends it to the buffer they share, broadcasts it, and only then takes the next.
`LogReader.Reads` is what a reader has made of its stream so far, and what it will make of the
rest, however that stream goes on. -/

namespace Ciron

/-- The lines up to the first one that is not valid UTF-8. -/
def readable (lines : List (List UInt8)) : List String :=
  (lines.takeWhile fun line => (decode line).isSome).filterMap decode

/-- Whether a reader waits for a line, has one that it has not appended yet, or is through. -/
inductive ReaderPhase where
  | reading
  | holding (line : LogLine)
  | done
deriving DecidableEq, Repr

/-- One reader and the pipe it reads.  `closed` tells whether the other end is closed, `written`
    is all that was written to it, which the code does not keep. -/
structure LogReader where
  source : LogSource
  pipe : Pipe := { bytes := [] }
  closed : Bool := false
  phase : ReaderPhase := .reading
  written : List UInt8 := []
deriving DecidableEq, Repr

namespace LogReader

/-- A child cannot write once the reader has dropped the pipe. -/
def write (bytes : List UInt8) (reader : LogReader) : Option LogReader :=
  if reader.closed ∨ reader.phase = .done then none
  else some { reader with
    pipe := { reader.pipe with bytes := reader.pipe.bytes ++ bytes }
    written := reader.written ++ bytes }

def close (failure : Option String) (reader : LogReader) : Option LogReader :=
  if reader.closed then none
  else some { reader with pipe := { reader.pipe with failure }, closed := true }

/-- A call of `next_line` that returns: there is a whole line, or the pipe is closed.
    Without `forward` the bytes are copied to a sink as they come. -/
def read (nextLine : NextLine) (forward : Bool) (now : Nat) (reader : LogReader) : Option LogReader :=
  match reader.phase, forward with
  | .reading, true =>
    if newline ∈ reader.pipe.bytes ∨ reader.closed then
      match nextLine reader.pipe with
      | (.ok (some message), pipe) =>
        some { reader with pipe, phase := .holding { timestampMs := now, source := reader.source, message } }
      | (.ok none, pipe) | (.error _, pipe) => some { reader with pipe, phase := .done }
    else none
  | .reading, false =>
    some { reader with
      pipe := { reader.pipe with bytes := [], ended := reader.closed }
      phase := if reader.closed then .done else .reading }
  | _, _ => none

/-- The whole stream, as far as it was written. -/
def stream (reader : LogReader) : Pipe := { bytes := reader.written, failure := reader.pipe.failure }

end LogReader

/-- `lines` and `sent` record which reader appended and broadcast what. -/
structure Pipeline where
  logs : Logs
  readers : List LogReader := []
  lines : List (Nat × LogLine) := []
  sent : List (Nat × LogLine) := []

inductive PipelineAction where
  | spawn
  | write (reader : Nat) (bytes : List UInt8)
  | close (reader : Nat) (failure : Option String)
  | read (reader : Nat) (now : Nat)
  | append (reader : Nat)
  | broadcast (reader : Nat)
  | client (action : LogAction)
deriving DecidableEq, Repr

/-- What one reader appended or broadcast. -/
def linesOf (reader : Nat) (lines : List (Nat × LogLine)) : List LogLine :=
  (lines.filter (·.1 = reader)).map (·.2)

namespace Pipeline

variable (nextLine : NextLine)

/-- A step of one reader or of its pipe. -/
def turn (s : Pipeline) (r : Nat) (act : LogReader → Option LogReader) : Option Pipeline :=
  (s.readers[r]?.bind act).map fun reader => { s with readers := s.readers.set r reader }

def step (s : Pipeline) : PipelineAction → Option Pipeline
  | .spawn => some { s with readers := s.readers ++ [{ source := .stdout }, { source := .stderr }] }
  | .write r bytes => s.turn r (·.write bytes)
  | .close r failure => s.turn r (·.close failure)
  | .read r now =>
    match s.logs.pending r with
    | none => s.turn r (·.read nextLine s.logs.config.logForward now)
    | some _ => none
  | .append r =>
    match s.readers[r]? with
    | some reader =>
      match reader.phase with
      | .holding line =>
        (s.logs.step (.append r line)).map fun logs => { s with
          logs
          readers := s.readers.set r { reader with phase := .reading }
          lines := s.lines ++ [(r, line)] }
      | _ => none
    | none => none
  | .broadcast r =>
    match s.logs.pending r with
    | some entry =>
      (s.logs.step (.broadcast r)).map fun logs => { s with logs, sent := s.sent ++ [(r, entry.line)] }
    | none => none
  | .client (.append ..) | .client (.broadcast _) => none
  | .client action => (s.logs.step action).map fun logs => { s with logs }

def start (name : String) (config : ProgramConfig) : Pipeline := { logs := Logs.start name config }

/-! ## One case for each effect -/

inductive Stepped (s : Pipeline) : PipelineAction → Pipeline → Prop
  | spawns : Stepped s .spawn { s with readers := s.readers ++ [{ source := .stdout }, { source := .stderr }] }
  | writes {r : Nat} {bytes : List UInt8} {reader reader' : LogReader} (found : s.readers[r]? = some reader)
      (writes : reader.write bytes = some reader') :
      Stepped s (.write r bytes) { s with readers := s.readers.set r reader' }
  | closes {r : Nat} {failure : Option String} {reader reader' : LogReader}
      (found : s.readers[r]? = some reader) (closes : reader.close failure = some reader') :
      Stepped s (.close r failure) { s with readers := s.readers.set r reader' }
  | reads {r now : Nat} {reader reader' : LogReader} (found : s.readers[r]? = some reader)
      (idle : s.logs.pending r = none)
      (reads : reader.read nextLine s.logs.config.logForward now = some reader') :
      Stepped s (.read r now) { s with readers := s.readers.set r reader' }
  | appends {r : Nat} {reader : LogReader} {line : LogLine} {logs : Logs}
      (found : s.readers[r]? = some reader) (holds : reader.phase = .holding line)
      (appends : s.logs.step (.append r line) = some logs) :
      Stepped s (.append r) { s with
        logs
        readers := s.readers.set r { reader with phase := .reading }
        lines := s.lines ++ [(r, line)] }
  | broadcasts {r : Nat} {entry : Entry} {logs : Logs} (pends : s.logs.pending r = some entry)
      (broadcasts : s.logs.step (.broadcast r) = some logs) :
      Stepped s (.broadcast r) { s with logs, sent := s.sent ++ [(r, entry.line)] }
  | serves {action : LogAction} {logs : Logs} (other : ∀ r line, action ≠ .append r line)
      (silent : ∀ r, action ≠ .broadcast r) (serves : s.logs.step action = some logs) :
      Stepped s (.client action) { s with logs }

theorem turn_inv {s t : Pipeline} {r : Nat} {act : LogReader → Option LogReader}
    (h : s.turn r act = some t) : ∃ reader reader', s.readers[r]? = some reader ∧
      act reader = some reader' ∧ t = { s with readers := s.readers.set r reader' } := by
  simp only [turn, Option.map_eq_some_iff, Option.bind_eq_some_iff] at h
  obtain ⟨reader', ⟨reader, found, acts⟩, rfl⟩ := h
  exact ⟨reader, reader', found, acts, rfl⟩

theorem step_stepped {s t : Pipeline} {a : PipelineAction} (h : s.step nextLine a = some t) :
    Stepped nextLine s a t := by
  cases a with
  | spawn =>
    cases h
    exact .spawns
  | write r bytes =>
    obtain ⟨reader, reader', found, acts, rfl⟩ := turn_inv h
    exact .writes found acts
  | close r failure =>
    obtain ⟨reader, reader', found, acts, rfl⟩ := turn_inv h
    exact .closes found acts
  | read r now =>
    simp only [step] at h
    split at h
    · rename_i idle
      obtain ⟨reader, reader', found, acts, rfl⟩ := turn_inv h
      exact .reads found idle acts
    · cases h
  | append r =>
    simp only [step] at h
    split at h
    · rename_i reader found
      split at h
      · rename_i line holds
        obtain ⟨logs, hlogs, rfl⟩ := Option.map_eq_some_iff.mp h
        exact .appends found holds hlogs
      · cases h
    · cases h
  | broadcast r =>
    simp only [step] at h
    split at h
    · rename_i entry pends
      obtain ⟨logs, hlogs, rfl⟩ := Option.map_eq_some_iff.mp h
      exact .broadcasts pends hlogs
    · cases h
  | client action =>
    cases action with
    | append | broadcast => cases h
    | snapshot | subscribe | stream =>
      obtain ⟨logs, hlogs, rfl⟩ := Option.map_eq_some_iff.mp h
      exact .serves nofun nofun hlogs

end Pipeline

/-! ## What a reader has made of its stream -/

theorem readable_cons (line : List UInt8) (lines : List (List UInt8)) :
    readable (line :: lines) =
      match decode line with
      | some message => message :: readable lines
      | none => [] := by
  cases h : decode line <;> simp [readable, h]

theorem streamLines_line {line : List UInt8} (h : newline ∉ line) (rest : List UInt8)
    (failure : Option String) :
    streamLines { bytes := line ++ newline :: rest, failure } =
      dropReturn line :: streamLines { bytes := rest, failure } := by
  obtain ⟨lines, part⟩ := splitOn_line h rest
  simp only [streamLines, lines, part, List.map_cons, List.cons_append]

theorem streamLines_part {part : List UInt8} (h : newline ∉ part) (failure : Option String) :
    streamLines { bytes := part, failure } = if failure = none ∧ part ≠ [] then [part] else [] := by
  obtain ⟨lines, last⟩ := splitOn_part h
  simp only [streamLines, lines, last, List.map_nil, List.nil_append]

section

variable {nextLine : NextLine}

/-- The line that `next_line` gave and those behind it, none if it gave no line. -/
def lineThen (result : Except ReadError (Option String)) (rest : List String) : List String :=
  match result with
  | .ok (some message) => message :: rest
  | _ => []

/-- `result` is the first of the lines that can be read off the pipe, and `left` holds the
    others; there may be no such line.  So it is however a stream that is still open goes on. -/
structure TakesLine (pipe : Pipe) (closed : Bool) (result : Except ReadError (Option String)) (left : Pipe) :
    Prop where
  failure : left.failure = pipe.failure
  within : left.bytes.length ≤ pipe.bytes.length
  shorter : ∀ message, result = .ok (some message) → left.bytes.length < pipe.bytes.length
  takes : ∀ more failure, (closed = true → more = [] ∧ failure = pipe.failure) →
    readable (streamLines { bytes := pipe.bytes ++ more, failure }) =
      lineThen result (readable (streamLines { bytes := left.bytes ++ more, failure }))

theorem takesLine_whole (law : YieldsLines nextLine) {pipe : Pipe} (whole : newline ∈ pipe.bytes) (closed : Bool) :
    TakesLine pipe closed (nextLine pipe).1 (nextLine pipe).2 := by
  obtain ⟨bytes, failure, ended⟩ := pipe
  obtain ⟨line, rest, rfl, absent⟩ := List.eq_append_cons_of_mem whole
  rw [law.terminated line rest failure ended absent]
  have shorter : rest.length < (line ++ newline :: rest).length := by
    simp only [List.length_append, List.length_cons]
    omega
  refine ⟨rfl, shorter.le, fun _ _ => shorter, fun more failure _ => ?_⟩
  · rw [List.append_assoc, List.cons_append, streamLines_line absent, readable_cons]
    cases decode (dropReturn line) <;> rfl

/-- Behind the last newline there is a line only if the stream ends there. -/
theorem takesLine_end (law : YieldsLines nextLine) {pipe : Pipe} (none : newline ∉ pipe.bytes) :
    TakesLine pipe true (nextLine pipe).1 (nextLine pipe).2 := by
  obtain ⟨bytes, failure, ended⟩ := pipe
  have last : ∀ more failure', (true = true → more = [] ∧ failure' = failure) →
      readable (streamLines { bytes := bytes ++ more, failure := failure' }) =
        readable (if failure = Option.none ∧ bytes ≠ [] then [bytes] else []) := by
    intro more failure' ends
    obtain ⟨rfl, rfl⟩ := ends rfl
    rw [List.append_nil, streamLines_part none]
  cases failure with
  | some message =>
    rw [law.fails bytes message ended none]
    refine ⟨rfl, Nat.zero_le _, nofun, fun more failure' ends => ?_⟩
    rw [last more failure' ends, if_neg (by simp)]
    rfl
  | none =>
    by_cases empty : bytes = []
    · subst empty
      rw [law.finished]
      refine ⟨rfl, Nat.zero_le _, nofun, fun more failure' ends => ?_⟩
      rw [last more failure' ends, if_neg (by simp)]
      rfl
    · rw [law.unterminated bytes ended none empty]
      refine ⟨rfl, Nat.zero_le _, fun _ _ => List.length_pos_iff.mpr empty, fun more failure' ends => ?_⟩
      rw [last more failure' ends, if_pos ⟨rfl, empty⟩, readable_cons]
      obtain ⟨rfl, rfl⟩ := ends rfl
      cases decode bytes <;> rfl

theorem nextLine_takesLine (law : YieldsLines nextLine) {pipe : Pipe} {closed : Bool}
    (returns : newline ∈ pipe.bytes ∨ closed = true) :
    TakesLine pipe closed (nextLine pipe).1 (nextLine pipe).2 := by
  by_cases whole : newline ∈ pipe.bytes
  · exact takesLine_whole law whole closed
  · obtain rfl := returns.resolve_left whole
    exact takesLine_end law whole

end

namespace LogReader

/-- What the reader will still make of its pipe, if `more` is written and the pipe ends with
    `failure`. -/
def ahead (reader : LogReader) (more : List UInt8) (failure : Option String) : List String :=
  match reader.phase with
  | .reading => readable (streamLines { bytes := reader.pipe.bytes ++ more, failure })
  | .holding line => line.message :: readable (streamLines { bytes := reader.pipe.bytes ++ more, failure })
  | .done => []

/-- The lines appended and those ahead are those of the stream, however it goes on. -/
structure Reads (reader : LogReader) (lines : List LogLine) : Prop where
  kept : ∀ more failure, (reader.closed = true → more = [] ∧ failure = reader.pipe.failure) →
    readable (streamLines { bytes := reader.written ++ more, failure }) =
      lines.map (·.message) ++ reader.ahead more failure
  own : ∀ line ∈ lines, line.source = reader.source
  held : ∀ line, reader.phase = .holding line → line.source = reader.source

variable {reader reader' : LogReader} {lines : List LogLine}

theorem Reads.fresh (source : LogSource) : Reads { source } [] :=
  ⟨fun _ _ _ => rfl, nofun, nofun⟩

theorem Reads.write (h : Reads reader lines) {bytes : List UInt8} (hstep : reader.write bytes = some reader') :
    Reads reader' lines := by
  simp only [LogReader.write] at hstep
  split at hstep
  · cases hstep
  · rename_i free
    obtain ⟨opened, _⟩ := not_or.mp free
    cases hstep
    refine ⟨fun more failure _ => ?_, h.own, h.held⟩
    have kept := h.kept (bytes ++ more) failure fun closed => absurd closed opened
    simpa only [ahead, List.append_assoc] using kept

theorem Reads.close (h : Reads reader lines) {failure : Option String}
    (hstep : reader.close failure = some reader') : Reads reader' lines := by
  simp only [LogReader.close] at hstep
  split at hstep
  · cases hstep
  · rename_i opened
    cases hstep
    exact ⟨fun more failure' _ => h.kept more failure' fun closed => absurd closed opened, h.own, h.held⟩

theorem Reads.append (h : Reads reader lines) {line : LogLine} (holds : reader.phase = .holding line) :
    Reads { reader with phase := .reading } (lines ++ [line]) := by
  refine ⟨fun more failure closed => ?_, ?_, nofun⟩
  · have kept := h.kept more failure closed
    simp only [ahead, holds] at kept
    simp [ahead, kept]
  · rw [List.forall_mem_append, List.forall_mem_singleton]
    exact ⟨h.own, h.held line holds⟩

/-- What a call of `next_line` takes off the pipe the reader holds, or it is through. -/
theorem read_inv {nextLine : NextLine} {now : Nat} (hstep : reader.read nextLine true now = some reader') :
    reader.phase = .reading ∧ (newline ∈ reader.pipe.bytes ∨ reader.closed = true) ∧
      reader' = { reader with
        pipe := (nextLine reader.pipe).2
        phase := match (nextLine reader.pipe).1 with
          | .ok (some message) => .holding { timestampMs := now, source := reader.source, message }
          | _ => .done } := by
  simp only [LogReader.read] at hstep
  split at hstep
  · rename_i reading _
    refine ⟨reading, ?_⟩
    split at hstep
    · rename_i returns
      refine ⟨returns, ?_⟩
      split at hstep <;> rename_i result <;> rw [result] <;> exact (Option.some.inj hstep).symm
    · cases hstep
  · rename_i never
    cases never
  · cases hstep

theorem Reads.read (h : Reads reader lines) {nextLine : NextLine} (law : YieldsLines nextLine) {now : Nat}
    (hstep : reader.read nextLine true now = some reader') : Reads reader' lines := by
  obtain ⟨reading, returns, rfl⟩ := read_inv hstep
  have line := nextLine_takesLine law returns
  refine ⟨fun more failure closed => ?_, h.own, fun entry holds => ?_⟩
  · rw [line.failure] at closed
    have kept := h.kept more failure closed
    simp only [ahead, reading, line.takes more failure closed] at kept
    rw [kept]
    cases (nextLine reader.pipe).1 with
    | error kind => rfl
    | ok text => cases text <;> rfl
  · cases result : (nextLine reader.pipe).1 with
    | error kind => rw [result] at holds; cases holds
    | ok text =>
      rw [result] at holds
      cases text with
      | none => cases holds
      | some message =>
        cases holds
        rfl

end LogReader

end Ciron
