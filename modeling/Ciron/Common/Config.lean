import Mathlib.Data.Nat.Notation

/-! # Configuration

`ProgramConfig`, `TransportConfig` and `GlobalConfig` of `ciron-common`, with the defaults their
optional keys have. -/

namespace Ciron

structure ProgramConfig where
  command : String
  autostart : Bool := false
  restart : Option String := none
  env : Option (List (String × String)) := none
  logForward : Bool := false
  /-- Programs that should be started before this one. -/
  after : Option (List String) := none
  /-- Programs to start alongside this one. -/
  wants : Option (List String) := none
deriving DecidableEq, Repr

namespace ProgramConfig

def afterList (config : ProgramConfig) : List String := config.after.getD []

/-- The names the start order follows, in the order it follows them. -/
def deps (config : ProgramConfig) : List String := config.afterList ++ config.wants.getD []

/-- The restart policy applied to an exit code. -/
def shouldRestart (config : ProgramConfig) (code : Int) : Bool :=
  match config.restart with
  | some "always" => true
  | some "on-failure" => code != 0
  | _ => false

end ProgramConfig

structure TransportConfig where
  enableUnix : Bool := true
  unixSocketPath : String := "/tmp/cirond.sock"
  enableInet : Bool := false
  inetAddress : String := "127.0.0.1:50051"
  enableVsock : Bool := false
  /-- All context ids. -/
  vsockCid : UInt32 := 4294967295
  vsockPort : UInt32 := 50051
deriving DecidableEq, Repr

structure GlobalConfig where
  transport : TransportConfig := {}
  program : List (String × ProgramConfig)
deriving DecidableEq, Repr

end Ciron
