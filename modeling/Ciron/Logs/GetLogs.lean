import Mathlib.Data.List.DropRight
import Ciron.Logs.Follow
import Ciron.Process.Manager

/-! # The reply of `get_logs`

A `get_logs` request without `follow` streams what `get_recent_logs` finds in the buffer.
`getLogs_tail`: whatever the readers did before, that is the end of what they appended. -/

namespace Ciron

open Transition

inductive LogLevel where
  | unspecified
  | trace
  | debug
  | info
  | warn
  | error
deriving DecidableEq, Repr

namespace LogLevel

def toInt : LogLevel → Int
  | unspecified => 0
  | trace => 1
  | debug => 2
  | info => 3
  | warn => 4
  | error => 5

end LogLevel

def LogSource.asStr : LogSource → String
  | stdout => "stdout"
  | stderr => "stderr"

structure LogEntry where
  timestamp : String
  level : Int
  source : String
  message : String
deriving DecidableEq, Repr

def toLogEntry (line : LogLine) : LogEntry where
  timestamp := toString line.timestampMs
  level := match line.source with
    | .stdout => LogLevel.info.toInt
    | .stderr => LogLevel.warn.toInt
  source := line.source.asStr
  message := line.message

/-- The status of a failed call. -/
inductive Status where
  | notFound (message : String)
deriving DecidableEq, Repr

/-- The `lines` of a request, as the number that `get_recent_logs` takes. -/
def requestedLines (lines : Int32) : Nat := if lines ≤ 0 then 0 else lines.toInt.toNat

/-- `found` is the program's configuration and buffer, if there is such a program. -/
def getLogs (name : String) (found : Option (ProgramConfig × List LogLine)) (lines : Int32) :
    Except Status (List LogEntry) :=
  match found with
  | none => .error (.notFound (notFound name))
  | some (config, buffer) =>
    match getRecentLogs name config buffer (requestedLines lines) with
    | .error e => .error (.notFound e)
    | .ok recent => .ok (recent.map toLogEntry)

/-! ## The end of a list -/

section

universe u

variable {α : Type u}

/-- A window of `size` entries moves on by one when it is full. -/
theorem rtake_push (l : List α) (entry : α) {size : Nat} (positive : 0 < size) :
    (if size ≤ (l.rtake size).length then (l.rtake size).tail else l.rtake size) ++ [entry] =
      (l ++ [entry]).rtake size := by
  simp only [List.rtake, List.length_drop, List.length_append, List.length_singleton]
  split
  · rename_i full
    rw [List.tail_drop, List.drop_append_of_le_length (by omega)]
    congr 2
    omega
  · rename_i room
    rw [Nat.sub_eq_zero_of_le (by omega), Nat.sub_eq_zero_of_le (by omega)]
    rfl

theorem pushLog_rtake (l : List α) (entry : α) :
    pushLog (l.rtake logBufferCapacity) entry = (l ++ [entry]).rtake logBufferCapacity :=
  rtake_push l entry (Nat.zero_lt_succ _)

theorem getRecentLogs_rtake {name : String} {config : ProgramConfig} (forward : config.logForward = true)
    (buffer : List α) (lines : Nat) : getRecentLogs name config buffer lines =
      .ok (buffer.rtake (if lines = 0 then buffer.length else lines)) := by
  rw [getRecentLogs, if_pos forward, List.rtake]
  congr 2
  split_ifs <;> omega

theorem rtake_rtake (l : List α) (m n : Nat) : (l.rtake m).rtake n = l.rtake (min n m) := by
  simp only [List.rtake, List.drop_drop, List.length_drop]
  congr 1
  omega

theorem rtake_min_length (l : List α) (n : Nat) : l.rtake (min n l.length) = l.rtake n := by
  simp only [List.rtake]
  congr 1
  omega

end

theorem requestedLines_eq (lines : Int32) :
    requestedLines lines = if 0 < lines.toInt then lines.toInt.toNat else 0 := by
  have order : lines ≤ 0 ↔ lines.toInt ≤ 0 := Int32.le_iff_toInt_le
  rw [requestedLines]
  by_cases positive : 0 < lines.toInt
  · rw [if_neg (fun small => absurd (order.mp small) (by omega)), if_pos positive]
  · rw [if_pos (order.mpr (by omega)), if_neg positive]

namespace Logs

/-- The buffer holds the latest lines, as many as it has room for. -/
def Buffered (s : Logs) : Prop := s.buffer = s.appended.rtake logBufferCapacity

theorem start_buffered (name : String) (config : ProgramConfig) : Buffered (start name config) :=
  (List.rtake_nil _).symm

theorem Buffered.step {s t : Logs} {a : LogAction} (h : Buffered s) (hstep : s.step a = some t) :
    Buffered t := by
  cases step_stepped hstep with
  | appends idle =>
    rw [Buffered, h, pushLog_rtake]
  | broadcasts | snapshots | subscribes | streams => exact h

/-- The buffer never holds more than its capacity, and a reply lists the last of all lines
    appended so far: as many as were asked for, if that is a positive number, and as many as
    the buffer keeps and there are. -/
theorem getLogs_tail {name : String} {config : ProgramConfig} (forward : config.logForward = true)
    {trace : List (Logs × LogAction)} {s : Logs} (run : Exec step (start name config) trace s)
    (lines : Int32) :
    s.buffer.length ≤ logBufferCapacity ∧
    getLogs name (some (config, s.buffer.map (·.line))) lines =
      .ok ((s.appended.rtake
        (if 0 < lines.toInt then min lines.toInt.toNat (min logBufferCapacity s.appended.length)
        else min logBufferCapacity s.appended.length)).map fun entry => toLogEntry entry.line) := by
  have buffered : Buffered s :=
    (run.invariant (fun _ _ _ h hstep => Buffered.step h hstep) (start_buffered name config)).1
  have hlength : s.buffer.length = min logBufferCapacity s.appended.length := by
    rw [buffered, List.rtake, List.length_drop]
    omega
  refine ⟨hlength ▸ Nat.min_le_left .., ?_⟩
  have window : (s.buffer.map (·.line)).rtake (if requestedLines lines = 0 then
      (s.buffer.map (·.line)).length else requestedLines lines) =
      (s.buffer.rtake (if requestedLines lines = 0 then s.buffer.length else requestedLines lines)).map
        (·.line) := by
    simp only [List.rtake, List.map_drop, List.length_map]
  simp only [getLogs, getRecentLogs_rtake forward, window, List.map_map]
  congr 2
  rw [buffered, rtake_rtake, ← buffered, hlength, requestedLines_eq]
  by_cases positive : 0 < lines.toInt
  · have asked : lines.toInt.toNat ≠ 0 := by omega
    rw [if_pos positive, if_neg asked, if_pos positive, ← Nat.min_assoc, rtake_min_length]
  · rw [if_neg positive, if_pos rfl, if_neg positive]
    congr 1
    omega

theorem getLogs_tail_two : ∃ (trace : List (Logs × LogAction)) (s : Logs),
    Exec step (start "web" { command := "web", logForward := true }) trace s ∧ s.appended.length = 2 ∧
    s.buffer.length ≤ logBufferCapacity ∧
    getLogs "web" (some ({ command := "web", logForward := true }, s.buffer.map (·.line))) 1 =
      .ok ((s.appended.rtake (if 0 < (1 : Int32).toInt then
          min (1 : Int32).toInt.toNat (min logBufferCapacity s.appended.length)
        else min logBufferCapacity s.appended.length)).map fun entry => toLogEntry entry.line) := by
  obtain ⟨s, hs, two⟩ : ∃ s, runs step (start "web" { command := "web", logForward := true })
      [.append 0 { timestampMs := 1, source := .stdout, message := "ready" },
        .append 1 { timestampMs := 2, source := .stderr, message := "slow" }] = some s ∧
      s.appended.length = 2 := ⟨_, rfl, rfl⟩
  obtain ⟨trace, run, _⟩ := exec_of_runs hs
  exact ⟨trace, s, run, two, getLogs_tail rfl run 1⟩

end Logs

end Ciron
