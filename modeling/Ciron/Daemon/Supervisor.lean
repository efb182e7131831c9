import Ciron.Transition.Simulation
import Ciron.Daemon.Delivery
import Ciron.Daemon.Holder

/-! # The supervisor behind the daemon

A `Supervisor` knows which programs are up, whose the children were, the messages on their way and
the restarts that are due.  It goes by the notes of the history alone, and takes a note only
where it belongs.

* `history_replayed`: in any reached state the supervisor takes the whole history, note by note,
  and comes to what the daemon has in its records, its channel and its sleeps.
* `starts_alternate`: between two spawns of a program there is the end of the first. -/

namespace Ciron

open Data Transition

structure Supervisor where
  up : String → Bool := fun _ => false
  owners : List String := []
  queue : List Message := []
  due : List String := []
  reported : List Nat := []

namespace Supervisor

def setUp (name : String) (up : Bool) (s : Supervisor) : Supervisor :=
  { s with up := Function.update s.up name up }

def enqueue (m : Message) (s : Supervisor) : Supervisor := { s with queue := s.queue ++ [m] }

/-- A start is announced of the program spawned last, a restart requested that is due, and a child
    reported once, in the name of its program. -/
def post (m : Message) (s : Supervisor) : Option Supervisor :=
  match m.sender, m.event with
  | none, .started name =>
    if s.up name = true ∧ s.owners.getLast? = some name then some (s.enqueue m) else none
  | none, .restartRequested name =>
    if name ∈ s.due then some ({ s with due := s.due.erase name }.enqueue m) else none
  | some task, .exited name _ | some task, .failed name _ =>
    if s.owners[task]? = some name ∧ task ∉ s.reported then
      some ({ s with reported := task :: s.reported }.enqueue m)
    else none
  | _, _ => none

/-- `restarts` is the policy: whether a program is restarted after an exit code. -/
def handle (restarts : String → Int → Bool) (s : Supervisor) : ProcessEvent → Supervisor
  | .exited name code =>
    { s.setUp name false with due := if restarts name code = true then name :: s.due else s.due }
  | .failed name _ => s.setUp name false
  | .started _ | .restartRequested _ => s

def step (restarts : String → Int → Bool) (s : Supervisor) : Note → Option Supervisor
  | .spawned name task =>
    if s.up name = false ∧ task = s.owners.length then
      some { s.setUp name true with owners := s.owners ++ [name] }
    else none
  | .spawnFailed name => if s.up name = false then some s else none
  | .signalled name _ => if s.up name = true then some s else none
  | .stopped name => if s.up name = true then some (s.setUp name false) else none
  | .posted m => s.post m
  | .handled m =>
    match s.queue with
    | next :: rest => if next = m then some (handle restarts { s with queue := rest } m.event) else none
    | [] => none

end Supervisor

def restartsOf (processes : ProcessTable) (name : String) (code : Int) : Bool :=
  (configOf processes name).any (·.shouldRestart code)

/-! ## The daemon, seen as a supervisor -/

namespace Daemon

variable {split : String → Option (List String)} {restarts : String → Int → Bool} {d d' : Daemon}

structure Abstracts (d : Daemon) (s : Supervisor) : Prop where
  up : ∀ name, s.up name = d.isRunning name
  owners : s.owners = d.programs
  queue : s.queue = d.events
  due : d.closed = false → s.due = d.timers
  reported : ∀ task ∈ s.reported, ∃ c, d.children[task]? = some c ∧ c.monitor = .sent

/-- The supervisor takes the notes that come with a change of the daemon. -/
def Answers (restarts : String → Int → Bool) (s : Supervisor) (d d' : Daemon) : Prop :=
  ∃ notes s', d'.history.reverse = d.history.reverse ++ notes ∧
    runs (Supervisor.step restarts) s notes = some s' ∧ Abstracts d' s'

variable {s s' : Supervisor}

theorem Abstracts.silent (h : Abstracts d' s) (history : d'.history = d.history) : Answers restarts s d d' :=
  ⟨[], s, by rw [history, List.append_nil], rfl, h⟩

theorem onReport_isRunning (event : ProcessEvent) (name : String) :
    (d.onReport event).isRunning name = if event.reports name = true then false else d.isRunning name := by
  cases reports : event.reports name with
  | true =>
    rw [if_pos rfl]
    by_contra runs
    obtain ⟨process, found, running⟩ := isRunning_iff.mp (Bool.eq_true_of_not_eq_false runs)
    rw [onReport_stops reports found] at running
    cases running
  | false => rw [if_neg Bool.false_ne_true, isRunning, onReport_lookup_of_not_reports reports, isRunning]

/-- Where no child is launched the owners stay, and a monitor that has reported is past aborting. -/
theorem Abstracts.keeps (h : Abstracts d s) (keeps : Keeps d d') (up : ∀ name, s'.up name = d'.isRunning name)
    (owners : s'.owners = s.owners) (queue : s'.queue = d'.events) (due : d'.closed = false → s'.due = d'.timers)
    (reported : ∀ task ∈ s'.reported, task ∈ s.reported ∨ ∃ c, d'.children[task]? = some c ∧ c.monitor = .sent) :
    Abstracts d' s' := by
  refine ⟨up, by rw [owners, h.owners, keeps.programs], queue, due, fun task member => ?_⟩
  cases reported task member with
  | inl old =>
    obtain ⟨c, child, sent⟩ := h.reported task old
    obtain ⟨c', child', ages⟩ := keeps.forth task c child
    exact ⟨c', child', (ages.monitor (by rw [sent]; simp)).trans sent⟩
  | inr new => exact new

/-- A change that shows in nothing that the supervisor knows. -/
theorem Abstracts.same (h : Abstracts d s) (keeps : Keeps d d') (processes : d'.processes = d.processes)
    (events : d'.events = d.events) (due : d'.closed = false → s.due = d'.timers) : Abstracts d' s :=
  h.keeps keeps (fun name => by rw [isRunning, processes]; exact h.up name) rfl (h.queue.trans events.symm) due
    fun _ => .inl

/-- A message is posted, unless the channel is closed. -/
theorem Abstracts.post {before : Daemon} {m : Message} (next : Supervisor) (history : d.history = before.history)
    (closed : d.closed = true → Abstracts d s)
    (opened : d.closed = false → s.post m = some (next.enqueue m) ∧ Abstracts d next) :
    Answers restarts s before (d.post m) := by
  cases shut : d.closed with
  | true =>
    have same : d.post m = d := by rw [Daemon.post, if_pos shut]
    rw [same]
    exact (closed shut).silent history
  | false =>
    obtain ⟨posts, h⟩ := opened shut
    refine ⟨[.posted m], next.enqueue m, ?_, ?_, h.keeps (.of_eq (post_children ..) (post_processes ..))
      (fun name => ?_) rfl ?_ (fun _ => ?_) fun _ => .inl⟩
    · rw [post_history, shut, if_neg Bool.false_ne_true, List.reverse_cons, history]
    · simp only [runs, Supervisor.step, posts, Option.bind_some]
    · rw [isRunning, post_processes, ← isRunning]
      exact h.up name
    · rw [post_events, shut, if_neg Bool.false_ne_true, ← h.queue]
      rfl
    · rw [post_timers]
      exact h.due shut

theorem Abstracts.launch {name : String} {process : ManagedProcess} {command : Command} {pid : Nat}
    (h : Abstracts d s) (found : d.processes.lookup name = some process) (stopped : process.running = false) :
    Answers restarts s d (d.launch name process command pid) := by
  have down : s.up name = false := by rw [h.up, isRunning_of_found found, stopped]
  have next : d.children.length = s.owners.length := by rw [h.owners, programs, List.length_map]
  let spawned : Supervisor := { s.setUp name true with owners := s.owners ++ [name] }
  have spawns : Supervisor.step restarts s (.spawned name d.children.length) = some spawned := by
    rw [Supervisor.step, if_pos ⟨down, next⟩]
  have abstracts (t : Supervisor) (up : t.up = spawned.up) (owners : t.owners = spawned.owners)
      (queue : t.queue = (d.launch name process command pid).events) (due : t.due = s.due)
      (reported : t.reported = s.reported) : Abstracts (d.launch name process command pid) t := by
    refine ⟨fun other => ?_, ?_, queue, fun opened => ?_, fun task member => ?_⟩
    · rw [up, isRunning, launch_processes, lookup_insert_eq]
      by_cases same : other = name
      · subst same
        simp [spawned, Supervisor.setUp]
      · simp [spawned, Supervisor.setUp, same, h.up, isRunning]
    · rw [owners, programs, launch_children, List.map_append, ← programs, ← h.owners]
      rfl
    · rw [launch_closed] at opened
      rw [due, launch_timers, h.due opened]
    · rw [reported] at member
      obtain ⟨c, child, sent⟩ := h.reported task member
      exact ⟨c, launch_child_of_lt child, sent⟩
  cases shut : d.closed with
  | true =>
    refine ⟨[.spawned name d.children.length], spawned, ?_, ?_, abstracts spawned rfl rfl ?_ rfl rfl⟩
    · rw [launch_history, shut, if_pos rfl, List.reverse_cons]
    · simp only [runs, spawns, Option.bind_some]
    · rw [launch_events, shut, if_pos rfl]
      exact h.queue
  | false =>
    let announced := spawned.enqueue { event := .started name }
    have posts : spawned.post { event := .started name } = some announced := by
      simp [Supervisor.post, spawned, Supervisor.setUp, announced]
    refine ⟨[.spawned name d.children.length, .posted { event := .started name }], announced, ?_, ?_,
      abstracts announced rfl rfl ?_ rfl rfl⟩
    · rw [launch_history, shut, if_neg Bool.false_ne_true]
      simp
    · rw [runs, spawns, Option.bind_some, runs, Supervisor.step, posts]
      rfl
    · rw [launch_events, shut, if_neg Bool.false_ne_true, ← h.queue]
      rfl

theorem Abstracts.halt {name : String} {process : ManagedProcess} {late : Bool} (h : Abstracts d s)
    (keeps : Keeps d (d.halt name process late)) (found : d.processes.lookup name = some process)
    (running : process.running = true) : Answers restarts s d (d.halt name process late) := by
  have up : s.up name = true := by rw [h.up, isRunning_of_found found, running]
  refine ⟨process.pid.toList.map (.signalled name) ++ [.stopped name], s.setUp name false, ?_, ?_,
    h.keeps keeps (fun other => ?_) rfl ?_ (fun opened => ?_) fun _ => .inl⟩
  · rw [halt_history]
    cases process.pid <;> simp
  · cases process.pid <;> simp [runs, Supervisor.step, up]
  · rw [isRunning, halt_processes, lookup_insert_eq]
    by_cases same : other = name
    · subst same
      simp [Supervisor.setUp]
    · simp [Supervisor.setUp, same, h.up, isRunning]
  · rw [halt_events]
    exact h.queue
  · rw [halt_closed] at opened
    rw [halt_timers]
    exact h.due opened

/-- What the policy does with an exit is what the daemon does. -/
theorem handle_due (policy : restarts = restartsOf d.processes) (timers : s.due = d.timers)
    (event : ProcessEvent) : (Supervisor.handle restarts s event).due = (d.onReport event).timers := by
  cases event with
  | exited name code =>
    rw [onReport, onExited_timers, ← timers, policy]
    rfl
  | failed name error =>
    rw [onReport, onFailed_timers, ← timers]
    rfl
  | started | restartRequested => exact timers

theorem handle_up (event : ProcessEvent) (name : String) : (Supervisor.handle restarts s event).up name =
    if event.reports name = true then false else s.up name := by
  cases event with
  | exited other code | failed other error =>
    by_cases same : name = other
    · subst same
      simp [Supervisor.handle, Supervisor.setUp, ProcessEvent.reports]
    · simp [Supervisor.handle, Supervisor.setUp, ProcessEvent.reports, same, Ne.symm same]
  | started | restartRequested => rfl

theorem Abstracts.takes {m : Message} {rest : List Message} (h : Abstracts d s)
    (keeps : Keeps d ((d.receive m rest).onReport m.event)) (queued : d.events = m :: rest)
    (policy : restarts = restartsOf d.processes) : Answers restarts s d ((d.receive m rest).onReport m.event) := by
  have front : s.queue = m :: rest := h.queue.trans queued
  refine ⟨[.handled m], Supervisor.handle restarts { s with queue := rest } m.event, ?_, ?_,
    h.keeps keeps (fun name => ?_) ?_ ?_ (fun opened => ?_) fun task member => .inl ?_⟩
  · rw [onReport_history]
    simp [receive]
  · simp only [runs, Supervisor.step, front, if_pos, Option.bind_some]
  · rw [handle_up, onReport_isRunning]
    congr 1
    exact h.up name
  · cases m.event <;> rfl
  · rw [onReport_events]
    cases m.event <;> rfl
  · rw [onReport_closed] at opened
    rw [onReport_receive_timers]
    exact handle_due (s := { s with queue := rest }) policy (h.due opened) m.event
  · cases event : m.event <;> rw [event] at member <;> exact member

/-- A monitor reports, for the first time. -/
theorem Abstracts.sendReport {task : Nat} {c : Child} {result : WaitResult} (h : Abstracts d s)
    (child : d.children[task]? = some c) (waiting : c.monitor = .waiting) :
    Answers restarts s d (d.sendReport task c result) := by
  have keeps : Keeps d { d with children := d.children.set task { c with monitor := .sent } } :=
    .set { c with monitor := .sent } child
      ⟨rfl, rfl, fun _ => id, fun _ => id, id, fun finished => absurd waiting finished⟩ rfl rfl
  have owner : s.owners[task]? = some c.program := by rw [h.owners, programs_getElem? child]
  have first : task ∉ s.reported := fun reported => by
    obtain ⟨c', child', sent⟩ := h.reported task reported
    cases child.symm.trans child'
    rw [waiting] at sent
    cases sent
  refine Abstracts.post { s with reported := task :: s.reported } rfl
    (fun _ => h.same keeps rfl rfl h.due) fun _ => ⟨?_, ?_⟩
  · cases result <;> simp [Supervisor.post, Child.report, owner, first]
  · refine h.keeps keeps h.up rfl h.queue h.due fun other member => ?_
    cases List.mem_cons.mp member with
    | inl same =>
      subst same
      exact .inr ⟨_, getElem?_set_here _ child, rfl⟩
    | inr old => exact .inl old

theorem Abstracts.fire {name : String} (h : Abstracts d s) (sleeping : name ∈ d.timers) :
    Answers restarts s d (d.fire name) := by
  refine Abstracts.post { s with due := s.due.erase name } rfl (fun shut => ?_) fun opened => ⟨?_, ?_⟩
  · refine h.same (.of_eq rfl rfl) rfl rfl fun opened => ?_
    rw [shut] at opened
    cases opened
  · rw [← h.due opened] at sleeping
    simp [Supervisor.post, sleeping]
  · refine h.keeps (.of_eq rfl rfl) h.up rfl h.queue (fun opened => ?_) fun _ => .inl
    exact congrArg (List.erase · name) (h.due opened)

/-- The supervisor follows the daemon move by move. -/
theorem Abstracts.moved {move : Move} (h : Abstracts d s) (moved : Moved split d move d')
    (policy : restarts = restartsOf d.processes) : Answers restarts s d d' := by
  have keeps := moved.keeps
  cases moved with
  | unchanged => exact h.silent rfl
  | @spawnFails name spawn process found stopped =>
    have down : s.up name = false := by rw [h.up, isRunning_of_found found, stopped]
    refine ⟨[.spawnFailed name], s, by simp, ?_, h.same (.of_eq rfl rfl) rfl rfl h.due⟩
    simp only [runs, Supervisor.step, down, if_pos, Option.bind_some]
  | launches found stopped => exact h.launch found stopped
  | halts found running => exact h.halt (keeps (by simp)) found running
  | handles queued => exact h.takes (keeps (by simp)) queued policy
  | closes => exact ⟨[], s, by simp, rfl, h.same (.of_eq rfl rfl) rfl rfl (by simp)⟩
  | exits | reaps => exact (h.same (keeps (by simp)) rfl rfl h.due).silent rfl
  | sends child waiting => exact h.sendReport child waiting
  | fires sleeping => exact h.fire sleeping

end Daemon

theorem restartsOf_congr {processes processes' : ProcessTable}
    (configs : configOf processes' = configOf processes) : restartsOf processes' = restartsOf processes := by
  funext name code
  rw [restartsOf, configs, restartsOf]

/-! ## What the history tells -/

/-- The notes that end the life of a program's latest child, as far as the manager knows. -/
def Note.ends (name : String) : Note → Bool
  | .stopped other => other = name
  | .handled m => m.event.reports name
  | _ => false

namespace Supervisor

variable {restarts : String → Int → Bool} {s t : Supervisor}

theorem post_up {m : Message} (h : s.post m = some t) : t.up = s.up := by
  simp only [post] at h
  split at h
  all_goals first | cases h | obtain ⟨_, same⟩ := Option.ite_none_right_eq_some.mp h; cases same
  all_goals rfl

/-- What takes a program down is a note that ends it. -/
theorem step_up {n : Note} (h : s.step restarts n = some t) {name : String} (up : s.up name = true)
    (goesOn : n.ends name = false) : t.up name = true := by
  cases n with
  | spawned other task =>
    obtain ⟨_, same⟩ := Option.ite_none_right_eq_some.mp h
    cases same
    by_cases here : name = other <;> simp [setUp, here, up]
  | spawnFailed | signalled =>
    obtain ⟨_, same⟩ := Option.ite_none_right_eq_some.mp h
    cases same
    exact up
  | stopped other =>
    obtain ⟨_, same⟩ := Option.ite_none_right_eq_some.mp h
    cases same
    have different : name ≠ other := Ne.symm (by simpa [Note.ends] using goesOn)
    simp [setUp, different, up]
  | posted m =>
    rw [post_up h]
    exact up
  | handled m =>
    simp only [step] at h
    split at h
    · obtain ⟨_, same⟩ := Option.ite_none_right_eq_some.mp h
      cases same
      rw [Daemon.handle_up, if_neg (by rw [← Bool.not_eq_true] at goesOn; exact goesOn)]
      exact up
    · cases h

theorem runs_up {notes : List Note} (h : runs (step restarts) s notes = some t) {name : String}
    (up : s.up name = true) (goesOn : ∀ n ∈ notes, n.ends name = false) : t.up name = true := by
  induction notes generalizing s with
  | nil =>
    cases h
    exact up
  | cons n notes ih =>
    obtain ⟨next, hstep, hrest⟩ := Option.bind_eq_some_iff.mp h
    obtain ⟨here, rest⟩ := List.forall_mem_cons.mp goesOn
    exact ih hrest (step_up hstep up here) rest

/-- A program comes up a second time only after it has gone down. -/
theorem runs_alternate {older between newer : List Note} {name : String} {first second : Nat}
    (h : runs (step restarts) s (older ++ .spawned name first :: (between ++ .spawned name second :: newer)) =
      some t) : ∃ n ∈ between, n.ends name = true := by
  by_contra none
  have goesOn : ∀ n ∈ between, n.ends name = false := fun n member =>
    Bool.eq_false_of_not_eq_true fun ends => none ⟨n, member, ends⟩
  simp only [runs_append, runs, Option.bind_eq_some_iff] at h
  obtain ⟨_, _, risen, rises, fallen, ran, _, again, _⟩ := h
  obtain ⟨_, same⟩ := Option.ite_none_right_eq_some.mp rises
  have up : risen.up name = true := by
    cases same
    exact Function.update_self ..
  obtain ⟨⟨down, _⟩, _⟩ := Option.ite_none_right_eq_some.mp again
  rw [runs_up ran up goesOn] at down
  cases down

end Supervisor

namespace System

variable {split : String → Option (List String)}

theorem Reached.replayed {s : System} (reached : s.Reached split) :
    ∃ supervisor, runs (Supervisor.step (restartsOf s.processes)) {} s.history.reverse = some supervisor ∧
      s.Abstracts supervisor := by
  obtain ⟨program, trace, run⟩ := reached
  let Related (s : System) (supervisor : Supervisor) : Prop :=
    s.Abstracts supervisor ∧ configOf s.processes = configOf (boot program).processes
  have begins : Related (boot program) {} := by
    obtain ⟨children, events, _, timers, _, records⟩ := Daemon.loadFromConfig_fresh program
    refine ⟨⟨fun name => (Bool.eq_false_of_not_eq_true fun runs => ?_).symm, ?_, events.symm, fun _ => timers.symm,
      nofun⟩, rfl⟩
    · obtain ⟨process, found, running⟩ := Daemon.isRunning_iff.mp runs
      rw [(records name process found).1] at running
      cases running
    · rw [boot, Daemon.programs, children]
      rfl
  have follows : ∀ s a t supervisor, Related s supervisor → s.step split a = some t →
      ∃ new supervisor', t.history.reverse = s.history.reverse ++ new ∧
        runs (Supervisor.step (restartsOf (boot program).processes)) supervisor new = some supervisor' ∧
        Related t supervisor' := by
    rintro s a t supervisor ⟨abstracts, configs⟩ hstep
    obtain ⟨new, supervisor', grown, answer, abstracts'⟩ :=
      abstracts.moved (step_moved hstep) (restartsOf_congr configs).symm
    exact ⟨new, supervisor', grown, answer, abstracts', (step_configs hstep).trans configs⟩
  have empty : (boot program).history.reverse = [] := by
    rw [boot, (Daemon.loadFromConfig_fresh program).2.2.2.2.1]
    rfl
  obtain ⟨supervisor, replayed, abstracts, configs⟩ := run.replays follows empty begins
  rw [restartsOf_congr configs]
  exact ⟨supervisor, replayed, abstracts⟩

/-- The history of any reached state, note by note from the beginning, is one that the supervisor takes;
    and what it comes to by that is what the daemon has: the programs that run, the program of
    every child, the messages in the channel, and, until the channel is closed, the restart
    sleeps.  So the history alone decides them. -/
theorem history_replayed {s : System} (reached : s.Reached split) :
    ∃ supervisor, runs (Supervisor.step (restartsOf s.processes)) {} s.history.reverse = some supervisor ∧
      (∀ name, supervisor.up name = s.isRunning name) ∧ supervisor.owners = s.children.map (·.program) ∧
      supervisor.queue = s.events ∧ (s.closed = false → supervisor.due = s.timers) := by
  obtain ⟨supervisor, replayed, abstracts⟩ := reached.replayed
  exact ⟨supervisor, replayed, abstracts.up, abstracts.owners, abstracts.queue, abstracts.due⟩

/-- A program that exited is due, and the start of another one is announced. -/
theorem history_replayed_two : ∃ s : System, s.history.length = 7 ∧ s.timers = ["db"] ∧ s.isRunning "web" = true ∧
    ∃ supervisor, runs (Supervisor.step (restartsOf s.processes)) {} s.history.reverse = some supervisor ∧
      (∀ name, supervisor.up name = s.isRunning name) ∧ supervisor.owners = s.children.map (·.program) ∧
      supervisor.queue = s.events ∧ (s.closed = false → supervisor.due = s.timers) := by
  have ran : (ran oneWord [("db", { command := "db", restart := some "always" }), ("web", { command := "web" })]
    [.startProcess "db", .startUnit (some 7), .childExits 0 (some 0), .childReaped 0 none, .monitorSends 0,
      .handleSingleEvent, .handleSingleEvent, .startProcess "web", .startUnit (some 8)]).isSome = true := by decide
  exact ⟨_, rfl, rfl, rfl, history_replayed (Reached.ran ran)⟩

/-- No program is started twice in a row: between two spawns of it its record was closed, by a stop
    or by the report of an exit or of a failed wait. -/
theorem starts_alternate {s : System} (reached : s.Reached split) {name : String} {first second : Nat}
    {older between newer : List Note}
    (log : s.history = newer ++ .spawned name second :: (between ++ .spawned name first :: older)) :
    ∃ n ∈ between, n.ends name = true := by
  obtain ⟨supervisor, replayed, _⟩ := reached.replayed
  rw [log] at replayed
  simp only [List.reverse_append, List.reverse_cons, List.append_assoc, List.singleton_append] at replayed
  obtain ⟨n, member, ends⟩ := Supervisor.runs_alternate replayed
  exact ⟨n, List.mem_reverse.mp member, ends⟩

theorem starts_alternate_stopped : ∃ (s : System) (older between newer : List Note),
    s.history = newer ++ .spawned "web" 1 :: (between ++ .spawned "web" 0 :: older) ∧ between.length = 3 ∧
    ∃ n ∈ between, n.ends "web" = true := by
  have ran : (ran oneWord [("web", { command := "web" })] [.startProcess "web", .startUnit (some 7),
    .stopProcess "web" false, .startProcess "web", .startUnit (some 8)]).isSome = true := by decide
  have log : ((System.ran oneWord _ _).get ran).history = [.posted { event := .started "web" }] ++
    .spawned "web" 1 :: ([.stopped "web", .signalled "web" 7, .posted { event := .started "web" }] ++
      .spawned "web" 0 :: []) := rfl
  exact ⟨_, _, _, _, log, rfl, starts_alternate (Reached.ran ran) log⟩

end System

end Ciron
