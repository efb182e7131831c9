import Ciron.Common.Transport
import Ciron.Daemon.Serial
import Ciron.Daemon.Supervision
import Ciron.Logs.GetLogs

/-! # The gRPC service

`CironDaemonService` answers the requests of clients: with the list of processes under the read lock, or
with the result of a call of the manager under the write lock.

* `status_accurate`: what the status says of a program, against the children that are there.
* `replies_agree`: the reply to a start or a restart, against the status at the moment the lock
  is given back, whatever came in between. -/

namespace Ciron

open Transition

/-! ## Messages -/

inductive ProcessState where
  | unspecified
  | stopped
  | starting
  | running
  | stopping
  | failed
  | exited
deriving DecidableEq, Repr

def ProcessState.toInt : ProcessState → Int
  | unspecified => 0
  | stopped => 1
  | starting => 2
  | running => 3
  | stopping => 4
  | failed => 5
  | exited => 6

structure ProcessConfig where
  command : String := ""
  autostart : Bool := false
  restartPolicy : Option String := none
  env : List (String × String) := []
  workingDirectory : Option String := none
  user : Option String := none
  group : Option String := none
deriving DecidableEq, Repr

structure ProcessStatus where
  name : String
  state : Int
  pid : Option Int32 := none
  startedAt : Option String := none
  uptimeSeconds : Option Int32 := none
  restartCount : Option Int32 := none
  config : Option ProcessConfig := none
deriving DecidableEq

structure DaemonInfo where
  version : String
  startedAt : String
  uptimeSeconds : Int32
  configFile : String
  totalProcesses : Int32
  runningProcesses : Int32
  stoppedProcesses : Int32
  transport : Option TransportInfo

structure GetStatusResponse where
  processes : List ProcessStatus
  daemonInfo : Option DaemonInfo

/-- `StartProcessResponse` and `RestartProcessResponse`. -/
structure ProcessResponse where
  success : Bool
  message : String
  status : Option ProcessStatus
deriving DecidableEq

structure StopProcessResponse where
  success : Bool
  message : String
deriving DecidableEq, Repr

/-! ## The service -/

/-- `startTime` is in nanoseconds since the epoch; `version` is `CARGO_PKG_VERSION`. -/
structure CironDaemonService where
  startTime : Int
  version : String
  configFile : String
  transport : String

/-- `duration_since`, in whole seconds: an error if `earlier` is later. -/
def secondsSince (earlier later : Int) : Option Nat :=
  if earlier ≤ later then some ((later - earlier).toNat / 1000000000) else none

/-- The entries of the table, in the order `keys` of its iterator. -/
def listProcesses (d : Daemon) (keys : List String) : List (String × Bool) :=
  keys.filterMap fun name => (d.processes.lookup name).map fun process => (name, process.running)

def stateOf (running : Bool) : ProcessState := if running then .running else .stopped

/-- What both status requests say of a process. -/
def processStatus (process : String × Bool) : ProcessStatus where
  name := process.1
  state := (stateOf process.2).toInt
  config := some {}

namespace CironDaemonService

def getUptimeSeconds (service : CironDaemonService) (now : Int) : Int32 :=
  ((secondsSince service.startTime now).map Int32.ofNat).getD 0

def getStatus (service : CironDaemonService) (now : Int) (d : Daemon) (keys : List String) :
    GetStatusResponse :=
  let processes := listProcesses d keys
  let runningCount := processes.countP (·.2)
  let stoppedCount := processes.length - runningCount
  { processes := processes.map processStatus
    daemonInfo := some {
      version := service.version
      startedAt := ((secondsSince 0 service.startTime).map toString).getD ""
      uptimeSeconds := service.getUptimeSeconds now
      configFile := service.configFile
      totalProcesses := Int32.ofNat processes.length
      runningProcesses := Int32.ofNat runningCount
      stoppedProcesses := Int32.ofNat stoppedCount
      transport := some (parseTransportInfo service.transport) } }

end CironDaemonService

def getProcessStatus (d : Daemon) (keys : List String) (name : String) : Except Status ProcessStatus :=
  match (listProcesses d keys).find? fun process => process.1 = name with
  | none => .error (.notFound s!"Process '{name}' not found")
  | some process => .ok (processStatus (name, process.2))

/-- The reply of the handler of `verb` to the result of its call. -/
def processResponse (verb done name : String) : Except String Unit → ProcessResponse
  | .ok _ =>
    { success := true
      message := s!"Process '{name}' {done} successfully"
      status := some { name, state := ProcessState.running.toInt } }
  | .error e => { success := false, message := s!"Failed to {verb} process '{name}': {e}", status := none }

def startProcessResponse : String → Except String Unit → ProcessResponse := processResponse "start" "started"

def restartProcessResponse : String → Except String Unit → ProcessResponse :=
  processResponse "restart" "restarted"

def stopProcessResponse (name : String) : Except String Unit → StopProcessResponse
  | .ok _ => { success := true, message := s!"Process '{name}' stopped successfully" }
  | .error e => { success := false, message := s!"Failed to stop process '{name}': {e}" }

/-! ## The list of processes -/

/-- `keys` is an order in which the iterator can go through the table. -/
structure Lists (d : Daemon) (keys : List String) : Prop where
  nodup : keys.Nodup
  all : ∀ name, name ∈ keys ↔ name ∈ d.processes

section

variable {d : Daemon} {keys : List String} {name : String}

theorem Lists.ofKeys (nodup : keys.Nodup) (all : keys.toFinset = d.processes.keys) : Lists d keys :=
  ⟨nodup, fun name => by rw [← List.mem_toFinset, all, Finmap.mem_keys]⟩

theorem listProcesses_eq (order : Lists d keys) :
    listProcesses d keys = keys.map fun name => (name, d.isRunning name) := by
  have found : ∀ name ∈ keys, (d.processes.lookup name).map (fun process => (name, process.running)) =
      some (name, d.isRunning name) := by
    intro name member
    obtain ⟨process, found⟩ := Finmap.mem_iff.mp ((order.all name).mp member)
    rw [found, Option.map_some, Daemon.isRunning_of_found found]
  rw [listProcesses, List.filterMap_congr found, List.filterMap_eq_map']

theorem getProcessStatus_known (order : Lists d keys) (known : name ∈ d.processes) :
    getProcessStatus d keys name = .ok (processStatus (name, d.isRunning name)) := by
  have listed := (order.all name).mpr known
  rw [getProcessStatus, listProcesses_eq order]
  split
  · rename_i absent
    have absent := List.find?_eq_none.mp absent (name, d.isRunning name) (List.mem_map.mpr ⟨name, listed, rfl⟩)
    simp at absent
  · rename_i process found
    obtain ⟨other, _, rfl⟩ := List.mem_map.mp (List.mem_of_find?_eq_some found)
    obtain rfl : other = name := by simpa using List.find?_some found
    rfl

theorem getProcessStatus_unknown (order : Lists d keys) (unknown : name ∉ d.processes) :
    getProcessStatus d keys name = .error (.notFound s!"Process '{name}' not found") := by
  rw [getProcessStatus, listProcesses_eq order]
  split
  · rfl
  · rename_i process found
    obtain ⟨other, member, rfl⟩ := List.mem_map.mp (List.mem_of_find?_eq_some found)
    obtain rfl : other = name := by simpa using List.find?_some found
    exact absurd ((order.all other).mp member) unknown

end

namespace System

variable {split : String → Option (List String)}

/-! ## What the status says -/

/-- While the channel is open the status has one entry for each program, the one that a request
    for the program alone is answered with; the counts add up; and a program that is said to run
    has a last child whose monitor is there to report on it or has its report queued.  Where every
    live child that was not signalled is tracked, a program that is said to be stopped has none. -/
theorem status_accurate {s : System} (reached : s.Reached split) (opened : s.closed = false)
    {keys : List String} (order : Lists s.toDaemon keys) (service : CironDaemonService) (now : Int) :
    let response := service.getStatus now s.toDaemon keys
    (response.processes.map (·.name) = keys) ∧
    (∀ name, name ∉ s.processes →
      getProcessStatus s.toDaemon keys name = .error (.notFound s!"Process '{name}' not found")) ∧
    (∀ info, response.daemonInfo = some info →
      info.totalProcesses = info.runningProcesses + info.stoppedProcesses ∧
      info.runningProcesses =
        Int32.ofNat (response.processes.countP (·.state = ProcessState.running.toInt))) ∧
    ∀ status ∈ response.processes, getProcessStatus s.toDaemon keys status.name = .ok status ∧
      (status.state = ProcessState.running.toInt ∧ (∃ task c, s.latest status.name = some task ∧
          s.children[task]? = some c ∧ c.monitor ≠ .aborted ∧ s.Watched task c) ∨
        status.state = ProcessState.stopped.toInt ∧ (s.Tracked → ∀ (task : Nat) (c : Child),
          s.children[task]? = some c → c.program = status.name → c.exit.isSome ∨ c.signalled = true)) := by
  have listed := listProcesses_eq order
  refine ⟨?_, fun name unknown => getProcessStatus_unknown order unknown, ?_, ?_⟩
  · simp only [CironDaemonService.getStatus, listed, List.map_map]
    exact List.map_id'' (fun _ => rfl) keys
  · intro info same
    simp only [CironDaemonService.getStatus, Option.some.injEq] at same
    subst same
    have all : (listProcesses s.toDaemon keys).countP (·.2) ≤ (listProcesses s.toDaemon keys).length :=
      List.countP_le_length
    refine ⟨?_, ?_⟩
    · rw [← Int32.ofNat_add, Nat.add_sub_cancel' all]
    · show Int32.ofNat _ = Int32.ofNat _
      rw [CironDaemonService.getStatus, List.countP_map]
      congr 1
      refine List.countP_congr fun process _ => ?_
      cases h : process.2 <;> simp [processStatus, stateOf, h, ProcessState.toInt]
  · intro status member
    simp only [CironDaemonService.getStatus, listed, List.map_map, List.mem_map, Function.comp_apply] at member
    obtain ⟨name, member, rfl⟩ := member
    refine ⟨getProcessStatus_known order ((order.all name).mp member), ?_⟩
    cases runs : s.isRunning name with
    | true =>
      obtain ⟨process, found, running⟩ := Daemon.isRunning_iff.mp runs
      exact .inl ⟨rfl, reached.watched opened found running⟩
    | false =>
      refine .inr ⟨rfl, fun tracked task c child program => ?_⟩
      by_contra left
      rw [not_or, Option.not_isSome_iff_eq_none, Bool.not_eq_true] at left
      obtain ⟨process, found, running, _⟩ := tracked task c child left.1 left.2
      have same : c.program = name := program
      rw [same] at found
      rw [Daemon.isRunning_iff.mpr ⟨process, found, running⟩] at runs
      cases runs

/-- One program runs, the other has exited and been reported. -/
theorem status_accurate_two : ∃ (s : System) (service : CironDaemonService) (now : Int),
    let response := service.getStatus now s.toDaemon ["web", "db"]
    (response.processes.map (·.state) = [3, 1]) ∧
    ∀ status ∈ response.processes, getProcessStatus s.toDaemon ["web", "db"] status.name = .ok status ∧
      (status.state = ProcessState.running.toInt ∧ (∃ task c, s.latest status.name = some task ∧
          s.children[task]? = some c ∧ c.monitor ≠ .aborted ∧ s.Watched task c) ∨
        status.state = ProcessState.stopped.toInt ∧ (s.Tracked → ∀ (task : Nat) (c : Child),
          s.children[task]? = some c → c.program = status.name → c.exit.isSome ∨ c.signalled = true)) := by
  have exited : (ran oneWord [("web", { command := "web" }), ("db", { command := "db" })] [.startProcess "db",
    .startUnit (some 7), .childExits 0 (some 0), .childReaped 0 none, .monitorSends 0, .handleSingleEvent,
    .handleSingleEvent, .startProcess "web", .startUnit (some 8)]).isSome = true := by decide
  have order : Lists ((ran oneWord _ _).get exited).toDaemon ["web", "db"] := .ofKeys (by decide) rfl
  let service : CironDaemonService :=
    { startTime := 0, version := "0.1.0", configFile := "cirond.toml", transport := "unix:///tmp/cirond.sock" }
  exact ⟨_, service, 60000000000, rfl,
    (status_accurate (Reached.ran exited) rfl order service 60000000000).2.2.2⟩

/-! ## What a reply says -/

/-- The reply to a stop agrees with the status at once: the program is known and stopped, or unknown. -/
theorem stop_reply {d : Daemon} {name : String} {late : Bool} {keys : List String}
    (order : Lists (d.stopProcess name late).2 keys) :
    let reply := stopProcessResponse name (d.stopProcess name late).1
    let status := getProcessStatus (d.stopProcess name late).2 keys name
    reply.success = true ∧ status = .ok (processStatus (name, false)) ∨
      reply.success = false ∧ status = .error (.notFound s!"Process '{name}' not found") := by
  have moved : Daemon.Moved oneWord d (.stop name late) (d.stopProcess name late).2 := Daemon.apply_moved rfl
  have same : name ∈ (d.stopProcess name late).2.processes ↔ name ∈ d.processes :=
    Daemon.mem_congr moved.configs name
  cases found : d.processes.lookup name with
  | none =>
    have unknown : name ∉ (d.stopProcess name late).2.processes := by
      rw [same, Finmap.mem_iff, found]
      simp
    refine .inr ⟨?_, getProcessStatus_unknown order unknown⟩
    rw [Daemon.stopProcess, found]
    rfl
  | some process =>
    refine .inl ⟨?_, ?_⟩
    · rw [Daemon.stopProcess, found]
      dsimp only
      split <;> rfl
    · rw [getProcessStatus_known order (same.mpr (Finmap.mem_iff.mpr ⟨process, found⟩)),
        Daemon.stopProcess_stopped]

/-- What a call of `start_process` for `root` returns: the result of its attempt for the root. -/
def rootResult (split : String → Option (List String)) (root : String) :
    List (System × Action) → Option (Except String Unit)
  | [] => none
  | (s, a) :: earlier =>
    match s.moveOf a with
    | .start unit spawn =>
      if unit = root then some (Daemon.startProcessSingle split s.toDaemon unit spawn).1
      else rootResult split root earlier
    | _ => rootResult split root earlier

variable {s t u : System}

theorem rootResult_cons {root : String} {a : Action} {earlier : List (System × Action)} :
    rootResult split root ((s, a) :: earlier) =
      match s.moveOf a with
      | .start unit spawn =>
        if unit = root then some (Daemon.startProcessSingle split s.toDaemon unit spawn).1
        else rootResult split root earlier
      | _ => rootResult split root earlier := rfl

theorem rootResult_outside {root : String} {a : Action} {earlier : List (System × Action)}
    (outside : (s.moveOf a).Outside) :
    rootResult split root ((s, a) :: earlier) = rootResult split root earlier := by
  rw [rootResult_cons]
  split
  · rename_i attempt
    rw [attempt] at outside
    cases outside
  · rfl

/-- The root is still to come, or it was attempted with a result that says whether it runs. -/
def Replied (split : String → Option (List String)) (root : String) (trace : List (System × Action))
    (s : System) : Prop :=
  root ∈ s.lock.pending ∨
    ∃ result, rootResult split root trace = some result ∧ result.isOk = s.isRunning root

theorem Attempted.replied {d : Daemon} {caller : Caller} {root : String} {units : List String}
    (begun : Attempted split d caller root units s) (nodup : units.Nodup) (listed : root ∈ s.lock.pending)
    {trace : List (System × Action)} (run : Exec (System.step split) s trace t)
    (under : ∀ p ∈ trace, p.1.lock.pending ≠ []) : Replied split root trace t := by
  induction run with
  | refl => exact .inl listed
  | @tail earlier t v a before last ih =>
    obtain ⟨here, under⟩ := List.forall_mem_cons.mp under
    have attempted := begun.run nodup before under
    obtain ⟨unit, rest, queued, held⟩ := attempted.starting here
    cases step_starting held last with
    | inl beside =>
      obtain ⟨lock, outside⟩ := beside
      rw [Replied, lock, rootResult_outside outside, Daemon.isRunning,
        (step_moved last).outside_processes outside, ← Daemon.isRunning]
      exact ih under
    | inr attempts =>
      obtain ⟨lock, spawn, attempt⟩ := attempts
      have single := step_single last attempt
      by_cases same : unit = root
      · subst same
        refine .inr ⟨_, by rw [rootResult_cons, attempt]; exact if_pos rfl, ?_⟩
        rw [single, Daemon.startProcessSingle_result, Daemon.startProcessSingle_running]
      · have other : rootResult split root ((t, a) :: earlier) = rootResult split root earlier := by
          rw [rootResult_cons, attempt]
          exact if_neg same
        have running : v.isRunning root = t.isRunning root := by
          rw [single, Daemon.isRunning, Daemon.startProcessSingle_lookup_of_ne split _ _ _ (Ne.symm same),
            ← Daemon.isRunning]
        rw [Replied, other, running, lock, Lock.resume_pending]
        refine (ih under).imp_left fun pending => ?_
        rw [queued, List.mem_cons] at pending
        exact pending.resolve_left (Ne.symm same)

/-- A start or restart request for a configured program, whatever comes between the steps of its
    call: at the moment the lock is given back, the reply made of the result of the call and the
    answer to a status request agree on whether the program runs. -/
theorem replies_agree {a : Action} {name : String} (h : s.step split a = some t) (called : s.Calls a name)
    (known : name ∈ s.processes) {trace : List (System × Action)} (run : Exec (step split) t trace u)
    (under : ∀ p ∈ trace, p.1.lock.pending ≠ []) (finished : u.lock.pending = []) {keys : List String}
    (order : Lists u.toDaemon keys) :
    ∃ result, rootResult split name trace = some result ∧
      ∀ response ∈ [startProcessResponse name result, restartProcessResponse name result],
        response.success = true ∧ (∃ status, response.status = some status ∧
          getProcessStatus u.toDaemon keys name = .ok { status with config := some {} }) ∨
        response.success = false ∧ response.status = none ∧ getProcessStatus u.toDaemon keys name =
          .ok { name, state := ProcessState.stopped.toInt, config := some {} } := by
  obtain ⟨caller, lock⟩ := step_calls h called
  rw [← step_calls_processes h called] at lock known
  have begun : Attempted split t.toDaemon caller name (startUnitsOf t.processes name) t := .begin lock (.refl _)
  have listed : name ∈ t.lock.pending := by
    rw [lock, Lock.resume_pending, mem_startUnitsOf]
    exact ⟨known, .refl⟩
  have replied := begun.replied (startUnitsOf_nodup name) listed run under
  obtain ⟨result, returned, ok⟩ := replied.resolve_left (by rw [finished]; exact List.not_mem_nil)
  have configs : configOf u.processes = configOf t.processes :=
    (run.invariant (fun _ _ _ inv step => (step_configs step).trans inv) rfl).1
  have status := getProcessStatus_known order ((Daemon.mem_congr configs name).mpr known)
  refine ⟨result, returned, fun response member => ?_⟩
  obtain ⟨verb, done, rfl⟩ : ∃ verb done, response = processResponse verb done name result := by
    rw [List.mem_pair] at member
    exact member.elim (fun same => ⟨_, _, same⟩) fun same => ⟨_, _, same⟩
  rw [← ok] at status
  cases result with
  | ok => exact .inl ⟨rfl, _, rfl, status⟩
  | error => exact .inr ⟨rfl, rfl, status⟩

/-- The attempt fails: the reply says so, and the status agrees. -/
theorem replies_agree_fails : ∃ (t u : System) (trace : List (System × Action)),
    Exec (step oneWord) t trace u ∧ trace.length = 2 ∧ u.isRunning "web" = false ∧
    ∃ result, rootResult oneWord "web" trace = some result ∧
      ∀ response ∈ [startProcessResponse "web" result, restartProcessResponse "web" result],
        response.success = true ∧ (∃ status, response.status = some status ∧
          getProcessStatus u.toDaemon ["db", "web"] "web" = .ok { status with config := some {} }) ∨
        response.success = false ∧ response.status = none ∧ getProcessStatus u.toDaemon ["db", "web"] "web" =
          .ok { name := "web", state := ProcessState.stopped.toInt, config := some {} } := by
  have begun : (step oneWord (boot [("web", { command := "web", after := some ["db"] }),
    ("db", { command := "db" })]) (.startProcess "web")).isSome = true := rfl
  have run : Exec (step oneWord) ((step oneWord _ _).get begun) _ _ := .tail (a := .startUnit none)
    (.tail (a := .startUnit (some 7)) .refl rfl) rfl
  refine ⟨_, _, _, run, rfl, rfl, replies_agree (Option.some_get begun).symm rfl (Finmap.mem_iff.mpr ⟨_, rfl⟩) run
    ?_ rfl (.ofKeys (by decide) rfl)⟩
  exact List.forall_mem_cons.mpr ⟨nofun, List.forall_mem_singleton.mpr nofun⟩

end System

end Ciron
