import Mathlib.Data.List.TakeWhile
import Ciron.Logs.Follow

/-! # The log readers

`spawn_log_reader` takes the lines of a child's stdout or stderr off the pipe, one at a
time, and appends and broadcasts each of them; the first error ends it.  So it does when a
line is not valid UTF-8, though the pipe goes on behind that line: `drains_iff`.

`Lines::next_line` of tokio is a parameter, and `YieldsLines` is what its documentation says. -/

namespace Ciron

open Transition

/-! ## Pipes and their lines -/

/-- The bytes of a pipe not read yet, and the error the pipe ends with, if it does not end with
    end of file.  `ended` tells whether the reader has met the end. -/
structure Pipe where
  bytes : List UInt8
  failure : Option String := none
  ended : Bool := false
deriving DecidableEq, Repr

inductive ReadError where
  | invalidData
  | pipe (message : String)
deriving DecidableEq, Repr

def newline : UInt8 := 10

def carriageReturn : UInt8 := 13

/-- The text of some bytes, if they are valid UTF-8. -/
def decode (bytes : List UInt8) : Option String := String.fromUTF8? ⟨bytes.toArray⟩

/-- A line without the `\r` at its end. -/
def dropReturn (line : List UInt8) : List UInt8 :=
  if line.getLast? = some carriageReturn then line.dropLast else line

def readResult (text : Option String) : Except ReadError (Option String) :=
  match text with
  | some message => .ok (some message)
  | none => .error .invalidData

/-- The result of a call of `next_line`, and the pipe after it. -/
abbrev NextLine := Pipe → Except ReadError (Option String) × Pipe

structure YieldsLines (nextLine : NextLine) : Prop where
  terminated : ∀ line rest failure ended, newline ∉ line →
    nextLine { bytes := line ++ newline :: rest, failure, ended } =
      (readResult (decode (dropReturn line)), { bytes := rest, failure, ended })
  unterminated : ∀ rest ended, newline ∉ rest → rest ≠ [] →
    nextLine { bytes := rest, failure := none, ended } =
      (readResult (decode rest), { bytes := [], ended := true })
  finished : ∀ ended, nextLine { bytes := [], failure := none, ended } =
    (.ok none, { bytes := [], ended := true })
  fails : ∀ rest message ended, newline ∉ rest →
    nextLine { bytes := rest, failure := some message, ended } =
      (.error (.pipe message), { bytes := [], failure := some message, ended := true })

/-- The lines that end with a newline, without it. -/
def terminatedLines (bytes : List UInt8) : List (List UInt8) := (bytes.splitOn newline).dropLast

/-- What stands behind the last newline. -/
def lastPart (bytes : List UInt8) : List UInt8 := (bytes.splitOn newline).getLast (by simp)

/-- The lines of the stream: a part behind the last newline is one if the stream ends there. -/
def streamLines (pipe : Pipe) : List (List UInt8) :=
  (terminatedLines pipe.bytes).map dropReturn ++
    if pipe.failure = none ∧ lastPart pipe.bytes ≠ [] then [lastPart pipe.bytes] else []

def validLines (pipe : Pipe) : List String := (streamLines pipe).filterMap decode

/-! ## The reader -/

/-- What a turn of the loop does with a line: `push_back` and `log_tx.send`. -/
def record (reader : Nat) (entry : LogLine) : List LogAction :=
  [.append reader entry, .broadcast reader]

/-- The loop of `spawn_log_reader`: what it does to the logs, and what it leaves in the pipe.
    `clock` is the time of each turn. -/
def readLoop (nextLine : NextLine) (reader : Nat) (source : LogSource) (clock : Nat → Nat) :
    Nat → Nat → Pipe → Option (List LogAction × Pipe)
  | 0, _, _ => none
  | fuel + 1, turn, pipe =>
    match nextLine pipe with
    | (.ok (some message), pipe) =>
      (readLoop nextLine reader source clock fuel (turn + 1) pipe).map fun (actions, left) =>
        (record reader { timestampMs := clock turn, source, message } ++ actions, left)
    | (.ok none, pipe) => some ([], pipe)
    -- invalid UTF-8 or an error of the pipe: the loop breaks with a warning
    | (.error _, pipe) => some ([], pipe)

/-- Without `forward` the pipe is copied to a sink. -/
def spawnLogReader (nextLine : NextLine) (reader : Nat) (source : LogSource) (clock : Nat → Nat)
    (forward : Bool) (fuel : Nat) (pipe : Pipe) : Option (List LogAction × Pipe) :=
  if forward then readLoop nextLine reader source clock fuel 0 pipe
  else some ([], { pipe with bytes := [], ended := true })

/-- The reader has met the end of the pipe, and has appended and broadcast the valid lines of
    the stream, once and in order. -/
structure Drains (reader : Nat) (source : LogSource) (pipe : Pipe) (actions : List LogAction)
    (left : Pipe) : Prop where
  ended : left.ended = true
  drained : left.bytes = []
  recorded : ∃ entries : List LogLine, actions = entries.flatMap (record reader) ∧
    entries.map (·.message) = validLines pipe ∧ ∀ entry ∈ entries, entry.source = source

/-! ## Lines of a stream, one by one -/

theorem splitOn_line {line : List UInt8} (h : newline ∉ line) (rest : List UInt8) :
    terminatedLines (line ++ newline :: rest) = line :: terminatedLines rest ∧
      lastPart (line ++ newline :: rest) = lastPart rest := by
  simp only [terminatedLines, lastPart, List.splitOn_append_cons_self_of_not_mem h]
  exact ⟨List.dropLast_cons_of_ne_nil (by simp), List.getLast_cons (by simp)⟩

theorem splitOn_part {part : List UInt8} (h : newline ∉ part) :
    terminatedLines part = [] ∧ lastPart part = part := by
  simp [terminatedLines, lastPart, List.splitOn_eq_singleton h]

theorem validLines_line {line rest : List UInt8} (h : newline ∉ line) (failure : Option String) :
    validLines { bytes := line ++ newline :: rest, failure } =
      (decode (dropReturn line)).toList ++ validLines { bytes := rest, failure } := by
  obtain ⟨lines, part⟩ := splitOn_line h rest
  simp only [validLines, streamLines, lines, part, List.map_cons, List.cons_append, List.filterMap_cons]
  cases decode (dropReturn line) <;> rfl

theorem validLines_part {part : List UInt8} (h : newline ∉ part) (failure : Option String) :
    validLines { bytes := part, failure } =
      if failure = none ∧ part ≠ [] then (decode part).toList else [] := by
  obtain ⟨lines, last⟩ := splitOn_part h
  simp only [validLines, streamLines, lines, last, List.map_nil, List.nil_append]
  split
  · rw [List.filterMap_cons]
    cases decode part <;> rfl
  · rfl

/-! ## The reader among the steps of the logs -/

/-- The steps of an idle reader are possible, and add its lines to what was appended and to
    what was broadcast. -/
theorem runs_record {s : Logs} (forward : s.config.logForward = true) {reader : Nat}
    (idle : s.pending reader = none) (entries : List LogLine) :
    ∃ t, runs Logs.step s (entries.flatMap (record reader)) = some t ∧
      t.appended.map (·.line) = s.appended.map (·.line) ++ entries ∧
      t.broadcasts.map (·.line) = s.broadcasts.map (·.line) ++ entries := by
  induction entries generalizing s with
  | nil => exact ⟨s, rfl, by simp, by simp⟩
  | cons entry rest ih =>
    obtain ⟨next, hturn, config, idle', appended, broadcasts⟩ :
        ∃ next, (s.step (.append reader entry)).bind (·.step (.broadcast reader)) = some next ∧
          next.config = s.config ∧ next.pending reader = none ∧
          next.appended.map (·.line) = s.appended.map (·.line) ++ [entry] ∧
          next.broadcasts.map (·.line) = s.broadcasts.map (·.line) ++ [entry] := by
      simp only [Logs.step, forward, idle, Option.bind_some, Function.update_self]
      exact ⟨_, rfl, rfl, by simp, by simp, by simp⟩
    obtain ⟨t, hruns, tappended, tbroadcasts⟩ := ih (by rw [config]; exact forward) idle'
    refine ⟨t, ?_, by rw [tappended, appended]; simp, by rw [tbroadcasts, broadcasts]; simp⟩
    obtain ⟨mid, happend, hbroadcast⟩ := Option.bind_eq_some_iff.mp hturn
    simp only [List.flatMap_cons, record, List.cons_append, List.nil_append, runs, happend, hbroadcast,
      Option.bind_some]
    exact hruns

/-! ## How far the reader gets -/

theorem drains_nothing {reader : Nat} {source : LogSource} {pipe left : Pipe} (ended : left.ended = true)
    (drained : left.bytes = []) (none : validLines pipe = []) : Drains reader source pipe [] left :=
  ⟨ended, drained, [], rfl, none.symm, nofun⟩

theorem Drains.line {reader : Nat} {source : LogSource} {rest line : List UInt8} {failure : Option String}
    {actions : List LogAction} {left : Pipe} (h : Drains reader source { bytes := rest, failure } actions left)
    {message : String} (valid : decode (dropReturn line) = some message) (whole : newline ∉ line)
    (timestampMs : Nat) :
    Drains reader source { bytes := line ++ newline :: rest, failure }
      (record reader { timestampMs, source, message } ++ actions) left := by
  obtain ⟨entries, hactions, hmessages, hsource⟩ := h.recorded
  refine ⟨h.ended, h.drained, { timestampMs, source, message } :: entries, ?_, ?_, ?_⟩
  · rw [List.flatMap_cons, hactions]
  · rw [validLines_line whole, valid, List.map_cons, hmessages]
    rfl
  · exact List.forall_mem_cons.mpr ⟨rfl, hsource⟩

section

variable {nextLine : NextLine} (reader : Nat) (source : LogSource) (clock : Nat → Nat)

/-- A turn that gets no line is the last one. -/
theorem readLoop_ends {pipe left : Pipe} {result : Except ReadError (Option String)}
    (reads : nextLine pipe = (result, left)) (noLine : ∀ message, result ≠ .ok (some message))
    {fuel : Nat} (more : 0 < fuel) (turn : Nat) :
    readLoop nextLine reader source clock fuel turn pipe = some ([], left) := by
  obtain ⟨fuel, rfl⟩ := Nat.exists_eq_add_of_lt more
  rw [readLoop, reads]
  cases result with
  | error kind => rfl
  | ok line =>
    cases line with
    | none => rfl
    | some message => exact absurd rfl (noLine message)

theorem readLoop_line {pipe rest left : Pipe} {message : String} {actions : List LogAction}
    (reads : nextLine pipe = (.ok (some message), rest)) {fuel turn : Nat}
    (onward : readLoop nextLine reader source clock fuel (turn + 1) rest = some (actions, left)) :
    readLoop nextLine reader source clock (fuel + 1) turn pipe =
      some (record reader { timestampMs := clock turn, source, message } ++ actions, left) := by
  simp only [readLoop, reads, onward, Option.map_some]

/-- Behind the last newline the loop is over in two turns, whatever is there. -/
theorem readLoop_part (law : YieldsLines nextLine) {part : List UInt8} (h : newline ∉ part)
    (failure : Option String) (turn : Nat) :
    ∃ actions left, Drains reader source { bytes := part, failure } actions left ∧
      ∀ fuel, part.length < fuel →
        readLoop nextLine reader source clock fuel turn { bytes := part, failure } = some (actions, left) := by
  have lines := validLines_part h failure
  cases failure with
  | some message =>
    refine ⟨[], { bytes := [], failure := some message, ended := true },
      drains_nothing rfl rfl (by simpa using lines), fun fuel more => ?_⟩
    exact readLoop_ends reader source clock (law.fails part message false h) nofun (Nat.zero_lt_of_lt more) turn
  | none =>
    by_cases empty : part = []
    · subst empty
      refine ⟨[], { bytes := [], ended := true }, drains_nothing rfl rfl (by simpa using lines),
        fun fuel more => ?_⟩
      exact readLoop_ends reader source clock (law.finished false) nofun more turn
    · rw [if_pos ⟨rfl, empty⟩] at lines
      have reads := law.unterminated part false h empty
      cases valid : decode part with
      | none =>
        rw [valid] at lines reads
        refine ⟨[], { bytes := [], ended := true }, drains_nothing rfl rfl lines, fun fuel more => ?_⟩
        exact readLoop_ends reader source clock reads nofun (Nat.zero_lt_of_lt more) turn
      | some message =>
        rw [valid] at lines reads
        refine ⟨record reader { timestampMs := clock turn, source, message } ++ [],
          { bytes := [], ended := true },
          ⟨rfl, rfl, [{ timestampMs := clock turn, source, message }], rfl, lines.symm, by simp⟩,
          fun fuel more => ?_⟩
        -- one turn for the line, and one for the end of file
        have positive := List.length_pos_iff.mpr empty
        obtain ⟨fuel, rfl⟩ : ∃ n, fuel = n + 1 := ⟨fuel - 1, by omega⟩
        exact readLoop_line reader source clock reads
          (readLoop_ends reader source clock (law.finished true) nofun (by omega) (turn + 1))

/-- Up to the first line that is not valid UTF-8 the reader takes every line; there it stops. -/
theorem readLoop_spec (law : YieldsLines nextLine) (failure : Option String) (bytes : List UInt8) (turn : Nat) :
    ∃ actions left, (∀ fuel, bytes.length < fuel →
        readLoop nextLine reader source clock fuel turn { bytes, failure } = some (actions, left)) ∧
      ((∀ line ∈ terminatedLines bytes, (decode (dropReturn line)).isSome) →
        Drains reader source { bytes, failure } actions left) ∧
      ((∃ line ∈ terminatedLines bytes, decode (dropReturn line) = none) → left.ended = false) := by
  induction hlength : bytes.length using Nat.strong_induction_on generalizing bytes turn with
  | _ length ih =>
    by_cases member : newline ∈ bytes
    · obtain ⟨line, rest, rfl, whole⟩ := List.eq_append_cons_of_mem member
      have reads := law.terminated line rest failure false whole
      have shorter : rest.length < length := by
        rw [← hlength, List.length_append, List.length_cons]
        omega
      simp only [(splitOn_line whole rest).1, List.forall_mem_cons, List.exists_mem_cons_iff]
      cases valid : decode (dropReturn line) with
      | none =>
        rw [valid] at reads
        refine ⟨[], { bytes := rest, failure }, fun fuel more => ?_, fun all => ?_, fun _ => rfl⟩
        · exact readLoop_ends reader source clock reads nofun (Nat.zero_lt_of_lt more) turn
        · cases all.1
      | some message =>
        rw [valid] at reads
        obtain ⟨actions, left, hloop, drains, stops⟩ := ih rest.length shorter rest (turn + 1) rfl
        refine ⟨record reader { timestampMs := clock turn, source, message } ++ actions, left,
          fun fuel more => ?_, fun all => ?_, fun invalid => ?_⟩
        · obtain ⟨fuel, rfl⟩ : ∃ n, fuel = n + 1 := ⟨fuel - 1, by omega⟩
          exact readLoop_line reader source clock reads (hloop fuel (by omega))
        · exact (drains all.2).line valid whole _
        · exact stops (invalid.resolve_left (by simp))
    · obtain ⟨actions, left, drains, hloop⟩ := readLoop_part reader source clock law member failure turn
      rw [(splitOn_part member).1]
      exact ⟨actions, left, by rwa [← hlength], fun _ => drains, fun invalid => by simp at invalid⟩

/-- A forwarding reader comes to an end, and has then drained the pipe if and only if every
    line that ends with a newline is valid UTF-8. -/
theorem drains_iff (law : YieldsLines nextLine) (bytes : List UInt8) (failure : Option String) :
    ∃ actions left, (∀ fuel, bytes.length < fuel →
        spawnLogReader nextLine reader source clock true fuel { bytes, failure } = some (actions, left)) ∧
      (Drains reader source { bytes, failure } actions left ↔
        ∀ line ∈ terminatedLines bytes, (decode (dropReturn line)).isSome) := by
  obtain ⟨actions, left, hloop, drains, stops⟩ :=
    readLoop_spec reader source clock law failure bytes 0
  refine ⟨actions, left, hloop, fun drained line member => ?_, drains⟩
  by_contra invalid
  have stopped := stops ⟨line, member, Option.not_isSome_iff_eq_none.mp invalid⟩
  rw [drained.ended] at stopped
  cases stopped

end

/-! ## A reader that meets a line that is not text -/

def nextLine : NextLine := fun pipe =>
  match pipe.bytes.dropWhile (· != newline), pipe.failure with
  | _ :: rest, _ =>
    (readResult (decode (dropReturn (pipe.bytes.takeWhile (· != newline)))), { pipe with bytes := rest })
  | [], some message => (.error (.pipe message), { pipe with bytes := [], ended := true })
  | [], none =>
    (if pipe.bytes = [] then .ok none else readResult (decode pipe.bytes), { bytes := [], ended := true })

theorem nextLine_yieldsLines : YieldsLines nextLine := by
  have passes : ∀ {part : List UInt8}, newline ∉ part → ∀ byte ∈ part, (byte != newline) = true := by
    intro part absent byte member
    exact bne_iff_ne.mpr fun same => absent (same ▸ member)
  constructor
  · intro line rest failure ended whole
    simp [nextLine, List.dropWhile_append_of_pos (passes whole), List.takeWhile_append_of_pos (passes whole)]
  · intro rest ended whole nonempty
    simp [nextLine, List.dropWhile_eq_nil_iff.mpr (passes whole), nonempty]
  · intro ended
    rfl
  · intro rest message ended whole
    simp [nextLine, List.dropWhile_eq_nil_iff.mpr (passes whole)]

theorem drains_iff_text :
    ∃ actions left, (∀ fuel, [104, 105, 13, 10, 104].length < fuel →
        spawnLogReader nextLine 0 .stdout id true fuel { bytes := [104, 105, 13, 10, 104] } =
          some (actions, left)) ∧
      (Drains 0 .stdout { bytes := [104, 105, 13, 10, 104] } actions left ↔
        ∀ line ∈ terminatedLines [104, 105, 13, 10, 104], (decode (dropReturn line)).isSome) :=
  drains_iff 0 .stdout id nextLine_yieldsLines [104, 105, 13, 10, 104] none

/-- A byte that is not UTF-8, on a line of its own, and then the line `hi`, which is lost. -/
theorem reader_stops :
    YieldsLines nextLine ∧
    spawnLogReader nextLine 0 .stdout id true 6 { bytes := [0xFF, 10, 104, 105, 10] } =
      some ([], { bytes := [104, 105, 10] }) ∧
    validLines { bytes := [0xFF, 10, 104, 105, 10] } = ["hi"] ∧
    ¬ Drains 0 .stdout { bytes := [0xFF, 10, 104, 105, 10] } [] { bytes := [104, 105, 10] } :=
  ⟨nextLine_yieldsLines, rfl, by decide, fun drains => by cases drains.drained⟩

end Ciron
