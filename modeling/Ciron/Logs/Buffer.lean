import Ciron.Common.Config

/-! # The log buffer of a program

The ring buffer that the log readers fill and `GetLogs` reads, oldest line first. -/

namespace Ciron

inductive LogSource where
  | stdout
  | stderr
deriving DecidableEq, Repr

structure LogLine where
  timestampMs : Nat
  source : LogSource
  message : String
deriving DecidableEq, Repr

/-- Number of log lines kept in memory for each program. -/
def logBufferCapacity : Nat := 1000

universe u

variable {α : Type u}

/-- `pop_front` if the buffer is full, then `push_back`. -/
def pushLog (buffer : List α) (entry : α) : List α :=
  (if logBufferCapacity ≤ buffer.length then buffer.tail else buffer) ++ [entry]

def loggingDisabled (name : String) : String :=
  s!"Log forwarding is disabled for process '{name}': set log_forward = true in its configuration to enable GetLogs/cironctl logs"

/-- The most recent `lines` entries, all of them for 0. -/
def getRecentLogs (name : String) (config : ProgramConfig) (buffer : List α) (lines : Nat) :
    Except String (List α) :=
  if config.logForward then
    .ok (buffer.drop (if lines = 0 ∨ buffer.length ≤ lines then 0 else buffer.length - lines))
  else .error (loggingDisabled name)

def subscribeLogs (name : String) (config : ProgramConfig) : Except String Unit :=
  if config.logForward then .ok () else .error (loggingDisabled name)

/-- With `lines` 0 the call returns the whole buffer. -/
theorem getRecentLogs_zero {name : String} {config : ProgramConfig} {buffer recent : List α}
    (h : getRecentLogs name config buffer 0 = .ok recent) : recent = buffer := by
  unfold getRecentLogs at h
  split at h
  · simpa using h.symm
  · cases h

end Ciron
