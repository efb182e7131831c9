import Ciron.Daemon.Service
import Ciron.Data.Lines

/-! # `cironctl status`

The command prints the reply of the daemon as a text.  `status_printed`: from the text one can tell
which programs there are, which of them run, and all else that the daemon tells of itself. -/

namespace Ciron

open Data

/-- `{:20}` -/
def padded (width : Nat) (text : String) : String := String.ofList (text.toList.rightpad width ' ')

def stateStr : Int → String
  | 1 => "STOPPED"
  | 2 => "STARTING"
  | 3 => "RUNNING"
  | 4 => "STOPPING"
  | 5 => "FAILED"
  | 6 => "EXITED"
  | _ => "UNKNOWN"

def daemonInfoLines (info : DaemonInfo) : List String :=
  ["Version: " ++ info.version,
    "Uptime: " ++ toString info.uptimeSeconds ++ "s",
    "Config: " ++ info.configFile,
    "Processes: " ++ toString info.totalProcesses ++ " total, " ++ toString info.runningProcesses ++
      " running, " ++ toString info.stoppedProcesses ++ " stopped",
    ""]

def processLines (process : ProcessStatus) : List String :=
  ("  " ++ padded 20 process.name ++ " " ++ stateStr process.state) ::
    (process.pid.map fun pid => "    PID: " ++ toString pid).toList

/-- What `Commands::Status` prints, or the error that it ends with. -/
def statusCommand (response : Except Status GetStatusResponse) : Except String String :=
  match response with
  | .ok resp =>
    .ok (unlines (["Cirond Status", "─────────────────────────────────────────"] ++
      (resp.daemonInfo.map daemonInfoLines).getD [] ++ "Processes:" :: resp.processes.flatMap processLines))
  | .error _ => .error "Failed to get status"

/-! ## Reading it again -/

/-- The version and the path are written on one line each. -/
structure CironDaemonService.Plain (service : CironDaemonService) : Prop where
  version : '\n' ∉ service.version.toList
  configFile : '\n' ∉ service.configFile.toList

/-- A name on one line, that can be told from the spaces behind it. -/
structure LegibleName (name : String) : Prop where
  whole : '\n' ∉ name.toList
  ends : name.toList.getLast? ≠ some ' '

/-- The line of a program that the daemon lists. -/
def processLine (process : String × Bool) : String :=
  "  " ++ padded 20 process.1 ++ " " ++ stateStr (stateOf process.2).toInt

theorem newline_not_mem_padded {name : String} (whole : '\n' ∉ name.toList) (width : Nat) :
    '\n' ∉ (padded width name).toList := by
  simp [padded, List.rightpad, whole]

theorem newline_not_mem_toString (n : Int32) : '\n' ∉ (toString n).toList := by
  have digits (value : Nat) : '\n' ∉ value.repr.toList := fun member => by
    rw [Nat.toList_repr] at member
    have digit := Nat.isDigit_of_mem_toDigits (by decide) (by decide) member
    simp at digit
  have text : toString n = Int.repr n.toInt := rfl
  rw [text]
  cases n.toInt with
  | ofNat value => exact digits value
  | negSucc value =>
    rw [Int.repr, String.toList_append, List.mem_append]
    exact not_or.mpr ⟨by decide, digits _⟩

theorem padded_injective {width : Nat} {name name' : String} (h : LegibleName name) (h' : LegibleName name')
    (same : padded width name = padded width name') : name = name' := by
  have lists := congrArg (List.rdropWhile fun c => decide (c = ' ')) (String.ofList_injective same)
  rw [rdropWhile_rightpad h.ends, rdropWhile_rightpad h'.ends] at lists
  exact String.toList_inj.mp lists

theorem processLine_whole {process : String × Bool} (h : LegibleName process.1) :
    '\n' ∉ (processLine process).toList := by
  have name := newline_not_mem_padded h.whole 20
  obtain ⟨_, running⟩ := process
  cases running <;> simp [processLine, name, stateStr, stateOf, ProcessState.toInt]

theorem processLine_injective {process process' : String × Bool} (h : LegibleName process.1)
    (h' : LegibleName process'.1) (same : processLine process = processLine process') : process = process' := by
  -- `RUNNING` and `STOPPED` are of one length
  have length (running : Bool) : (stateStr (stateOf running).toInt).toList.length = 7 := by
    cases running <;> rfl
  have texts := congrArg String.toList same
  simp only [processLine, String.toList_append] at texts
  obtain ⟨names, states⟩ := List.append_inj' texts (by rw [length, length])
  have names := String.toList_inj.mp (List.append_cancel_left (List.append_cancel_right names))
  obtain ⟨name, running⟩ := process
  obtain ⟨name', running'⟩ := process'
  obtain rfl : name = name' := padded_injective h h' names
  cases running with
  | true =>
    cases running' with
    | true => rfl
    | false => exact absurd states (by simp [stateStr, stateOf, ProcessState.toInt])
  | false =>
    cases running' with
    | true => exact absurd states (by simp [stateStr, stateOf, ProcessState.toInt])
    | false => rfl

/-- The lines of the text, in front of those of the programs. -/
def headLines (info : DaemonInfo) : List String :=
  ["Cirond Status", "─────────────────────────────────────────"] ++ daemonInfoLines info ++ ["Processes:"]

theorem headLines_whole (info : DaemonInfo) (version : '\n' ∉ info.version.toList)
    (configFile : '\n' ∉ info.configFile.toList) : ∀ line ∈ headLines info, '\n' ∉ line.toList := by
  have number := newline_not_mem_toString
  simp [headLines, daemonInfoLines, version, configFile, number]

theorem headLines_injective {info info' : DaemonInfo} (same : headLines info = headLines info') :
    info.version = info'.version ∧ toString info.uptimeSeconds = toString info'.uptimeSeconds ∧
      info.configFile = info'.configFile := by
  simp only [headLines, daemonInfoLines, List.cons_append, List.nil_append, List.cons.injEq, true_and] at same
  obtain ⟨version, uptime, configFile, _⟩ := same
  refine ⟨?_, ?_, ?_⟩
  · simpa using version
  · simpa using uptime
  · simpa using configFile

/-- What the daemon tells of itself. -/
def CironDaemonService.info (service : CironDaemonService) (now : Int) (processes : List (String × Bool)) :
    DaemonInfo where
  version := service.version
  startedAt := ((secondsSince 0 service.startTime).map toString).getD ""
  uptimeSeconds := service.getUptimeSeconds now
  configFile := service.configFile
  totalProcesses := Int32.ofNat processes.length
  runningProcesses := Int32.ofNat (processes.countP (·.2))
  stoppedProcesses := Int32.ofNat (processes.length - processes.countP (·.2))
  transport := some (parseTransportInfo service.transport)

theorem statusCommand_getStatus (service : CironDaemonService) (now : Int) (d : Daemon) (keys : List String) :
    statusCommand (.ok (service.getStatus now d keys)) =
      .ok (unlines (headLines (service.info now (listProcesses d keys)) ++
        (listProcesses d keys).map processLine)) := by
  have lines : (listProcesses d keys).flatMap (fun process => processLines (processStatus process)) =
      (listProcesses d keys).map processLine := List.map_eq_flatMap.symm
  simp only [statusCommand, CironDaemonService.getStatus, Option.map_some, Option.getD_some, List.flatMap_map,
    lines, headLines, CironDaemonService.info, List.append_assoc, List.singleton_append]

/-- Two statuses are printed alike if and only if they come from daemons of one version, configuration
    file and uptime that list the same programs in the same order, of which the same run. -/
theorem status_printed {service service' : CironDaemonService} (plain : service.Plain)
    (plain' : service'.Plain) (now now' : Int) {d d' : Daemon} {keys keys' : List String}
    (order : Lists d keys) (order' : Lists d' keys') (legible : ∀ name ∈ keys, LegibleName name)
    (legible' : ∀ name ∈ keys', LegibleName name) :
    statusCommand (.ok (service.getStatus now d keys)) = statusCommand (.ok (service'.getStatus now' d' keys')) ↔
      service.version = service'.version ∧ service.configFile = service'.configFile ∧
      toString (service.getUptimeSeconds now) = toString (service'.getUptimeSeconds now') ∧ keys = keys' ∧
      ∀ name ∈ keys, d.isRunning name = d'.isRunning name := by
  have named {d : Daemon} {keys : List String} (order : Lists d keys) (legible : ∀ name ∈ keys, LegibleName name) :
      ∀ process ∈ listProcesses d keys, LegibleName process.1 := by
    rw [listProcesses_eq order]
    exact List.forall_mem_map.mpr legible
  have programs {d : Daemon} {keys : List String} (order : Lists d keys)
      (legible : ∀ name ∈ keys, LegibleName name) :
      ∀ line ∈ (listProcesses d keys).map processLine, '\n' ∉ line.toList :=
    List.forall_mem_map.mpr fun process member => processLine_whole (named order legible process member)
  rw [statusCommand_getStatus, statusCommand_getStatus, Except.ok.injEq]
  constructor
  · intro same
    have head := headLines_whole (service.info now (listProcesses d keys)) plain.version plain.configFile
    have head' := headLines_whole (service'.info now' (listProcesses d' keys')) plain'.version
      plain'.configFile
    have texts := unlines_injective (List.forall_mem_append.mpr ⟨head, programs order legible⟩)
      (List.forall_mem_append.mpr ⟨head', programs order' legible'⟩) same
    obtain ⟨heads, lines⟩ := List.append_inj texts rfl
    obtain ⟨version, uptime, configFile⟩ := headLines_injective heads
    have processes := map_inj_on (fun _ _ => processLine_injective) (named order legible)
      (named order' legible') lines
    rw [listProcesses_eq order, listProcesses_eq order'] at processes
    have names := congrArg (List.map Prod.fst) processes
    simp only [List.map_map, Function.comp_def, List.map_id'] at names
    subst names
    exact ⟨version, configFile, uptime, rfl, fun name member =>
      congrArg Prod.snd (List.map_inj_left.mp processes name member)⟩
  · rintro ⟨version, configFile, uptime, rfl, runs⟩
    have processes : listProcesses d keys = listProcesses d' keys := by
      rw [listProcesses_eq order, listProcesses_eq order']
      exact List.map_congr_left fun name member => by rw [runs name member]
    rw [processes]
    simp only [headLines, daemonInfoLines, CironDaemonService.info, version, configFile, uptime]

/-- One of the two programs is stopped in between. -/
theorem status_printed_stopped : ∃ (s t : System) (service : CironDaemonService),
    s.isRunning "web" = true ∧ t.isRunning "web" = false ∧
    (statusCommand (.ok (service.getStatus 0 s.toDaemon ["web", "db"])) =
        statusCommand (.ok (service.getStatus 0 t.toDaemon ["web", "db"])) ↔
      service.version = service.version ∧ service.configFile = service.configFile ∧
      toString (service.getUptimeSeconds 0) = toString (service.getUptimeSeconds 0) ∧
      ["web", "db"] = ["web", "db"] ∧
      ∀ name ∈ ["web", "db"], s.isRunning name = t.isRunning name) := by
  have started : (System.ran oneWord [("web", { command := "web" }), ("db", { command := "db" })]
    [.startProcess "web", .startUnit (some 7)]).isSome = true := by decide
  have stopped : (System.ran oneWord [("web", { command := "web" }), ("db", { command := "db" })]
    [.startProcess "web", .startUnit (some 7), .stopProcess "web" false]).isSome = true := by decide
  let service : CironDaemonService :=
    { startTime := 0, version := "0.1.0", configFile := "cirond.toml", transport := "unix:///tmp/cirond.sock" }
  have plain : service.Plain := ⟨by decide, by decide⟩
  have legible : ∀ name ∈ ["web", "db"], LegibleName name := by
    rw [List.forall_mem_cons, List.forall_mem_singleton]
    exact ⟨⟨by decide, by decide⟩, ⟨by decide, by decide⟩⟩
  have order : Lists ((System.ran oneWord _ _).get started).toDaemon ["web", "db"] := .ofKeys (by decide) rfl
  have order' : Lists ((System.ran oneWord _ _).get stopped).toDaemon ["web", "db"] := .ofKeys (by decide) rfl
  exact ⟨_, _, service, rfl, rfl, status_printed plain plain 0 0 order order' legible legible⟩

end Ciron
