import Ciron.Data.Lines
import Ciron.Logs.GetLogs

/-! # The daemon's own log

`CironFormatter` writes one line for every event; for a line forwarded from a child it shows the
program in the place of the module.  `forwarded_log_injective`: from what is written one can
tell again which program said what on which stream, and in what order. -/

namespace Ciron

open Data

inductive Level where
  | trace
  | debug
  | info
  | warn
  | error
deriving DecidableEq, Repr

namespace Level

def asStr : Level → String
  | trace => "TRACE"
  | debug => "DEBUG"
  | info => "INFO"
  | warn => "WARN"
  | error => "ERROR"

def color : Level → String
  | trace => "35"
  | debug => "34"
  | info => "32"
  | warn => "33"
  | error => "31"

end Level

/-- How a field is recorded: as a string, or as what its `Debug` form writes. -/
inductive FieldValue where
  | str (value : String)
  | debug (text : String)
deriving DecidableEq, Repr

structure Event where
  level : Level
  target : String
  fields : List (String × FieldValue)
deriving DecidableEq, Repr

/-- One character of the `Debug` form of a string.  Which characters beyond ASCII stand there as
    they are is a matter of Unicode tables, `wide`. -/
def escapeDebug (wide : Char → Bool) (c : Char) : String :=
  if c = '\t' then "\\t"
  else if c = '\r' then "\\r"
  else if c = '\n' then "\\n"
  else if c.toNat = 0 then "\\0"
  else if c = '\\' then "\\\\"
  else if c = '\"' then "\\\""
  else if (if c.toNat < 128 then 32 ≤ c.toNat ∧ c.toNat < 127 else wide c = true) then c.toString
  else "\\u\x7b" ++ String.ofList (Nat.toDigits 16 c.toNat) ++ "\x7d"

def debugStr (wide : Char → Bool) (value : String) : String :=
  "\"" ++ String.join (value.toList.map (escapeDebug wide)) ++ "\""

structure EventVisitor where
  process : Option String := none
  message : String := ""
  fields : String := ""
deriving DecidableEq, Repr

namespace EventVisitor

def recordDebug (v : EventVisitor) (name text : String) : EventVisitor :=
  match name with
  | "message" => { v with message := v.message ++ text }
  | "process" => { v with process := some text }
  | name => { v with fields := v.fields ++ " " ++ name ++ "=" ++ text }

def recordStr (wide : Char → Bool) (v : EventVisitor) (name value : String) : EventVisitor :=
  match name with
  | "process" => { v with process := some value }
  | name => { v with fields := v.fields ++ " " ++ name ++ "=" ++ debugStr wide value }

def record (wide : Char → Bool) (v : EventVisitor) (field : String × FieldValue) : EventVisitor :=
  match field.2 with
  | .str value => v.recordStr wide field.1 value
  | .debug text => v.recordDebug field.1 text

end EventVisitor

def formatLevel (ansi : Bool) (level : Level) : String :=
  if ansi then "\x1b[" ++ level.color ++ "m" ++ level.asStr ++ "\x1b[0m" else level.asStr

/-- What `format_event` writes, without the newline.  `time` is what `format_time` writes. -/
def eventText (wide : Char → Bool) (ansi : Bool) (time : String) (event : Event) : String :=
  let visitor := event.fields.foldl (EventVisitor.record wide) {}
  time ++ " " ++ formatLevel ansi event.level ++ "\t" ++
    visitor.process.getD event.target ++ ": " ++ visitor.message ++ visitor.fields

/-- A line that a log reader forwards, at the time when it is written. -/
structure ForwardedLine where
  time : String
  program : String
  source : LogSource
  message : String
deriving DecidableEq, Repr

namespace ForwardedLine

/-- The `info!` of `spawn_log_reader`. -/
def event (line : ForwardedLine) : Event where
  level := .info
  target := "cirond::child"
  fields :=
    [("message", .debug line.message), ("process", .debug line.program), ("stream", .str line.source.asStr)]

/-- A time is written without tabs, a line read off a pipe has no newline, and the name of the
    program does not look like the beginning of a message. -/
structure Legible (line : ForwardedLine) : Prop where
  time : '\t' ∉ line.time.toList ∧ '\n' ∉ line.time.toList
  program : '\n' ∉ line.program.toList ∧ ¬ [':', ' '] <:+: line.program.toList
  message : '\n' ∉ line.message.toList

end ForwardedLine

/-- What stands behind the message. -/
def streamField (source : LogSource) : String := " stream=\"" ++ source.asStr ++ "\""

/-- The names of the streams are all letters. -/
theorem debugStr_asStr (wide : Char → Bool) (source : LogSource) :
    debugStr wide source.asStr = "\"" ++ source.asStr ++ "\"" := by
  cases source <;> rfl

theorem eventText_forwarded (wide : Char → Bool) (ansi : Bool) (line : ForwardedLine) :
    (eventText wide ansi line.time line.event).toList =
      (line.time.toList ++ ' ' :: (formatLevel ansi .info).toList) ++ '\t' ::
        (line.program.toList ++ ':' :: ' ' :: (line.message.toList ++ (streamField line.source).toList)) := by
  simp [eventText, ForwardedLine.event, EventVisitor.record, EventVisitor.recordDebug, EventVisitor.recordStr,
    debugStr_asStr, streamField]

theorem formatLevel_plain (ansi : Bool) :
    '\t' ∉ (formatLevel ansi .info).toList ∧ '\n' ∉ (formatLevel ansi .info).toList := by
  cases ansi <;> decide

theorem streamField_plain (source : LogSource) : '\n' ∉ (streamField source).toList := by
  cases source <;> decide

/-- The fields of both streams are of one length. -/
theorem streamField_length (source : LogSource) : (streamField source).toList.length = 16 := by
  cases source <;> decide

theorem streamField_injective {source source' : LogSource}
    (same : (streamField source).toList = (streamField source').toList) : source = source' := by
  cases source with
  | stdout =>
    cases source' with
    | stdout => rfl
    | stderr => exact absurd same (by decide)
  | stderr =>
    cases source' with
    | stdout => exact absurd same (by decide)
    | stderr => rfl

namespace ForwardedLine

theorem Legible.whole {line : ForwardedLine} (h : Legible line) (wide : Char → Bool) (ansi : Bool) :
    '\n' ∉ (eventText wide ansi line.time line.event).toList := by
  obtain ⟨_, level⟩ := formatLevel_plain ansi
  have field := streamField_plain line.source
  rw [eventText_forwarded]
  simp [h.time.2, h.program.1, h.message, level, field]

theorem Legible.injective {wide : Char → Bool} {ansi : Bool} {line line' : ForwardedLine} (h : Legible line)
    (h' : Legible line')
    (same : eventText wide ansi line.time line.event = eventText wide ansi line'.time line'.event) :
    line = line' := by
  have texts := congrArg String.toList same
  rw [eventText_forwarded, eventText_forwarded] at texts
  -- the first tab stands behind the level
  obtain ⟨stamps, texts⟩ := append_sep_inj (by simp [h.time.1, (formatLevel_plain ansi).1])
    (by simp [h'.time.1, (formatLevel_plain ansi).1]) texts
  have time := List.append_cancel_right stamps
  obtain ⟨program, texts⟩ := append_colon_inj h.program.2 h'.program.2 texts
  obtain ⟨message, field⟩ := List.append_inj' texts (by rw [streamField_length, streamField_length])
  have source := streamField_injective field
  obtain ⟨_, _, _, _⟩ := line
  obtain ⟨_, _, _, _⟩ := line'
  obtain rfl := String.toList_inj.mp time
  obtain rfl := String.toList_inj.mp program
  obtain rfl := String.toList_inj.mp message
  obtain rfl : _ = _ := source
  rfl

end ForwardedLine

end Ciron
