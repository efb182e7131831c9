import Ciron.Daemon.Invariant

/-! # The event channel

The messages ever sent are those handled followed by those queued, in this order.  A report
(`Exited` or `Failed`) is sent by the monitor of the child it is about, which sends nothing
else; so the senders of all reports are different tasks. -/

namespace Ciron

open Data

variable {split : String → Option (List String)}

def Note.posted? : Note → Option Message
  | .posted m => some m
  | _ => none

def Note.handled? : Note → Option Message
  | .handled m => some m
  | _ => none

def ProcessEvent.isReport : ProcessEvent → Bool
  | .exited .. | .failed .. => true
  | .started _ | .restartRequested _ => false

/-- The event is an `Exited` or a `Failed` of `name`. -/
def ProcessEvent.reports (name : String) : ProcessEvent → Bool
  | .exited other _ | .failed other _ => other = name
  | .started _ | .restartRequested _ => false

@[simp] theorem Child.report_isReport (c : Child) (result : WaitResult) :
    (c.report result).isReport = true := by
  cases result <;> rfl

@[simp] theorem Child.report_reports (c : Child) (result : WaitResult) (name : String) :
    (c.report result).reports name = decide (c.program = name) := by
  cases result <;> rfl

namespace Daemon

/-- Every message ever sent, oldest first. -/
def sent (d : Daemon) : List Message := (d.history.filterMap Note.posted?).reverse

/-- Every message ever handled, oldest first. -/
def handled (d : Daemon) : List Message := (d.history.filterMap Note.handled?).reverse

section

variable (d : Daemon) (m : Message)

theorem post_sent : (d.post m).sent = if d.closed then d.sent else d.sent ++ [m] := by
  unfold sent
  rw [post_history]
  split <;> simp [Note.posted?]

theorem post_handled : (d.post m).handled = d.handled := by
  unfold handled
  rw [post_history]
  split <;> rfl

end

/-- What a move does to the channel and to the restart sleeps. -/
inductive Traffic (d d' : Daemon) : Prop
  | none (sent : d'.sent = d.sent) (handled : d'.handled = d.handled) (events : d'.events = d.events)
      (timers : d'.timers = d.timers ∨ d.closed = true ∧ ∃ name, d'.timers = d.timers.erase name)
  | announces (name : String) (sent : d'.sent = d.sent ++ [{ event := .started name }])
      (handled : d'.handled = d.handled) (events : d'.events = d.events ++ [{ event := .started name }])
      (timers : d'.timers = d.timers)
  | requests (name : String) (opened : d.closed = false) (sleeping : name ∈ d.timers)
      (sent : d'.sent = d.sent ++ [{ event := .restartRequested name }]) (handled : d'.handled = d.handled)
      (events : d'.events = d.events ++ [{ event := .restartRequested name }])
      (timers : d'.timers = d.timers.erase name)
  | reports (task : Nat) (c : Child) (result : WaitResult)
      (sent : d'.sent = d.sent ++ [{ event := c.report result, sender := some task }])
      (handled : d'.handled = d.handled)
      (events : d'.events = d.events ++ [{ event := c.report result, sender := some task }])
      (child : d.children[task]? = some c) (waiting : c.monitor = .waiting) (reaped : c.reaped = some result)
      (children : d'.children = d.children.set task { c with monitor := .sent })
      (timers : d'.timers = d.timers)
  | takes (m : Message) (rest : List Message) (queued : d.events = m :: rest)
      (sent : d'.sent = d.sent) (handled : d'.handled = d.handled ++ [m]) (events : d'.events = rest)
      (timers : d'.timers = (d.onReport m.event).timers)

/-- A move that changes neither the history nor the channel. -/
theorem Traffic.of_eq {d d' : Daemon} (history : d'.history = d.history) (events : d'.events = d.events)
    (timers : d'.timers = d.timers) : Traffic d d' :=
  .none (by rw [Daemon.sent, history, ← Daemon.sent]) (by rw [Daemon.handled, history, ← Daemon.handled])
    events (.inl timers)

/-- A report of `name` marks it not running. -/
theorem onReport_stops {d : Daemon} {event : ProcessEvent} {name : String} {process : ManagedProcess}
    (reports : event.reports name = true) (found : (d.onReport event).processes.lookup name = some process) :
    process.running = false := by
  cases event with
  | started | restartRequested => cases reports
  | exited other code =>
    obtain rfl : other = name := by simpa [ProcessEvent.reports] using reports
    simp only [onReport, onExited] at found
    split at found
    · rename_i absent
      rw [absent] at found; cases found
    · split at found <;> simp at found <;> rw [← found]
  | failed other error =>
    obtain rfl : other = name := by simpa [ProcessEvent.reports] using reports
    simp only [onReport, onFailed] at found
    split at found
    · rename_i absent
      rw [absent] at found; cases found
    · simp at found
      rw [← found]

theorem onReport_lookup_of_not_reports {d : Daemon} {event : ProcessEvent} {name : String}
    (other : event.reports name = false) :
    (d.onReport event).processes.lookup name = d.processes.lookup name := by
  cases event with
  | started | restartRequested => rfl
  | exited program code =>
    have different : name ≠ program := by
      rintro rfl
      simp [ProcessEvent.reports] at other
    simp only [onReport, onExited]
    split
    · rfl
    · split <;> rw [setProcess_processes, lookup_insert_eq, if_neg different]
  | failed program error =>
    have different : name ≠ program := by
      rintro rfl
      simp [ProcessEvent.reports] at other
    simp only [onReport, onFailed]
    split
    · rfl
    · rw [setProcess_processes, lookup_insert_eq, if_neg different]

theorem mem_onReport_timers {d : Daemon} {event : ProcessEvent} {name : String} (h : name ∈ d.timers) :
    name ∈ (d.onReport event).timers := by
  cases event with
  | started | restartRequested => exact h
  | failed other error => rwa [onReport, onFailed_timers]
  | exited other code =>
    rw [onReport, onExited_timers]
    split
    · exact List.mem_cons_of_mem _ h
    · exact h

theorem onReport_receive_timers (d : Daemon) (m : Message) (rest : List Message) :
    ((d.receive m rest).onReport m.event).timers = (d.onReport m.event).timers := by
  cases m.event <;> simp only [onReport, onExited_timers, onFailed_timers] <;> rfl

theorem launch_sent {d : Daemon} {name : String} {process : ManagedProcess} {command : Command}
    {pid : Nat} : (d.launch name process command pid).sent =
      if d.closed then d.sent else d.sent ++ [{ event := .started name }] := by
  rw [sent, launch_history]
  split
  · rfl
  · exact List.reverse_cons

theorem launch_handled {d : Daemon} {name : String} {process : ManagedProcess} {command : Command}
    {pid : Nat} : (d.launch name process command pid).handled = d.handled := by
  rw [handled, launch_history]
  split <;> rfl

theorem halt_handled (d : Daemon) (name : String) (process : ManagedProcess) (late : Bool) :
    (d.halt name process late).handled = d.handled := by
  rw [handled, halt_history]
  cases process.pid <;> rfl

theorem sendReport_handled (d : Daemon) (task : Nat) (c : Child) (result : WaitResult) :
    (d.sendReport task c result).handled = d.handled := by
  rw [sendReport, post_handled]
  rfl

theorem fire_handled (d : Daemon) (name : String) : (d.fire name).handled = d.handled := by
  rw [fire, post_handled]
  rfl

/-- Only `handle_single_event` handles anything. -/
theorem Moved.handled_same {d d' : Daemon} {move : Move} (h : Moved split d move d')
    (other : move ≠ .handle) : d'.handled = d.handled := by
  cases h with
  | unchanged | spawnFails | closes | exits | reaps => rfl
  | launches => exact launch_handled
  | halts => exact halt_handled ..
  | handles => exact absurd rfl other
  | sends => exact sendReport_handled ..
  | fires => exact fire_handled ..

theorem Moved.traffic {d d' : Daemon} {move : Move} (h : Moved split d move d') : Traffic d d' := by
  cases h with
  | unchanged | closes | exits | reaps => exact .of_eq rfl rfl rfl
  | spawnFails => exact .none rfl rfl rfl (.inl rfl)
  | @launches name =>
    cases closed : d.closed with
    | true =>
      -- the `Started` is refused
      exact .none (by simp [launch_sent, closed]) launch_handled (by simp [launch_events, closed])
        (.inl launch_timers)
    | false =>
      exact .announces name (by simp [launch_sent, closed]) launch_handled
        (by simp [launch_events, closed]) launch_timers
  | @halts name late process =>
    refine .none ?_ (halt_handled ..) (halt_events ..) (.inl (halt_timers ..))
    rw [sent, halt_history]
    cases process.pid <;> rfl
  | @handles m rest queued =>
    refine .takes m rest queued ?_ ?_ (by simp [receive]) (onReport_receive_timers d m rest)
    · rw [sent, onReport_history]
      rfl
    · rw [handled, onReport_history]
      exact List.reverse_cons
  | @sends task c result child waiting reaped =>
    have handled := sendReport_handled d task c result
    cases closed : d.closed with
    | true =>
      refine .none ?_ handled ?_ (.inl (post_timers ..))
      · rw [sendReport, post_sent, if_pos closed]; rfl
      · rw [sendReport, post_events, if_pos closed]
    | false =>
      have open' : ¬ d.closed = true := by simp [closed]
      refine .reports task c result ?_ handled ?_ child waiting reaped (post_children ..) (post_timers ..)
      · rw [sendReport, post_sent, if_neg open']; rfl
      · rw [sendReport, post_events, if_neg open']
  | @fires name sleeping =>
    have handled := fire_handled d name
    cases closed : d.closed with
    | true =>
      -- the sleep is over all the same
      refine .none ?_ handled ?_ (.inr ⟨closed, name, post_timers ..⟩)
      · rw [fire, post_sent, if_pos closed]; rfl
      · rw [fire, post_events, if_pos closed]
    | false =>
      have open' : ¬ d.closed = true := by simp [closed]
      refine .requests name closed sleeping ?_ handled ?_ (post_timers ..)
      · rw [fire, post_sent, if_neg open']; rfl
      · rw [fire, post_events, if_neg open']

/-- Where a message in the queue after a move comes from. -/
inductive Queued (d : Daemon) (m : Message) : Prop
  | old (queued : m ∈ d.events)
  | announced (name : String) (event : m.event = .started name)
  | requested (name : String) (opened : d.closed = false) (sleeping : name ∈ d.timers)
      (event : m.event = .restartRequested name)
  | reported (task : Nat) (c : Child) (result : WaitResult) (child : d.children[task]? = some c)
      (waiting : c.monitor = .waiting) (reaped : c.reaped = some result) (event : m.event = c.report result)

theorem Traffic.queued {d d' : Daemon} (h : Traffic d d') {m : Message} (member : m ∈ d'.events) :
    Queued d m := by
  cases h with
  | none _ _ events => exact .old (by rwa [← events])
  | announces name _ _ events =>
    rw [events, List.mem_append, List.mem_singleton] at member
    cases member with
    | inl old => exact .old old
    | inr new => exact .announced name (by rw [new])
  | requests name opened sleeping _ _ events =>
    rw [events, List.mem_append, List.mem_singleton] at member
    cases member with
    | inl old => exact .old old
    | inr new => exact .requested name opened sleeping (by rw [new])
  | reports task c result _ _ events child waiting reaped =>
    rw [events, List.mem_append, List.mem_singleton] at member
    cases member with
    | inl old => exact .old old
    | inr new => exact .reported task c result child waiting reaped (by rw [new])
  | takes head rest queued _ _ events =>
    rw [events] at member
    exact .old (queued ▸ List.mem_cons_of_mem _ member)

/-- A restart sleep after a move went on before it, or a queued exit began it. -/
theorem Traffic.sleeping {d d' : Daemon} (h : Traffic d d') {name : String} (sleeps : name ∈ d'.timers) :
    name ∈ d.timers ∨ ∃ m ∈ d.events, ∃ code, m.event = .exited name code ∧
      (configOf d.processes name).any (·.shouldRestart code) = true := by
  cases h with
  | none _ _ _ timers =>
    cases timers with
    | inl same => exact .inl (same ▸ sleeps)
    | inr fired =>
      obtain ⟨_, other, erased⟩ := fired
      exact .inl (List.mem_of_mem_erase (erased ▸ sleeps))
  | announces _ _ _ _ timers | reports _ _ _ _ _ _ _ _ _ _ timers => exact .inl (timers ▸ sleeps)
  | requests _ _ _ _ _ _ timers => exact .inl (List.mem_of_mem_erase (timers ▸ sleeps))
  | takes m rest queued _ _ _ timers =>
    rw [timers] at sleeps
    cases event : m.event with
    | started | restartRequested =>
      rw [event] at sleeps
      exact .inl sleeps
    | failed other error =>
      rw [event, onReport, onFailed_timers] at sleeps
      exact .inl sleeps
    | exited other code =>
      rw [event, onReport, onExited_timers] at sleeps
      split at sleeps
      · rename_i restarts
        -- the sleep just begun is that of the program that exited
        cases List.mem_cons.mp sleeps with
        | inl same => exact .inr ⟨m, queued ▸ List.mem_cons_self .., code, same ▸ event, same ▸ restarts⟩
        | inr before => exact .inl before
      · exact .inl sleeps

/-! ## Every report comes from a monitor of its own -/

structure Delivered (d : Daemon) : Prop where
  fifo : d.sent = d.handled ++ d.events
  reported : ∀ m ∈ d.sent, ∀ task, m.sender = some task → ∃ c result,
    d.children[task]? = some c ∧ c.monitor = .sent ∧ c.reaped = some result ∧ m.event = c.report result
  anonymous : ∀ m ∈ d.sent, m.sender = none → m.event.isReport = false
  distinct : (d.sent.filterMap (·.sender)).Nodup

/-- A child's report stays its report as the child ages. -/
theorem reported_ages {d d' : Daemon}
    (forth : ∀ (task : Nat) (c : Child), d.children[task]? = some c →
      ∃ c', d'.children[task]? = some c' ∧ c.Becomes c') {m : Message} {task : Nat}
    (h : ∃ c result, d.children[task]? = some c ∧ c.monitor = .sent ∧ c.reaped = some result ∧
      m.event = c.report result) :
    ∃ c result, d'.children[task]? = some c ∧ c.monitor = .sent ∧ c.reaped = some result ∧
      m.event = c.report result := by
  obtain ⟨c, result, child, hsent, reaped, event⟩ := h
  obtain ⟨c', child', ages⟩ := forth task c child
  refine ⟨c', result, child', ?_, ages.reaped result reaped, ?_⟩
  · rw [ages.monitor (by rw [hsent]; decide), hsent]
  · rw [event]
    cases result <;> simp only [Child.report, ages.program]

theorem Moved.forth {d d' : Daemon} {move : Move} (h : Moved split d move d') (task : Nat) (c : Child)
    (child : d.children[task]? = some c) : ∃ c', d'.children[task]? = some c' ∧ c.Becomes c' := by
  cases h.effect with
  | keeps keeps => exact keeps.forth task c child
  | launches name process command pid _ _ launched =>
    rw [launched]
    exact ⟨c, launch_child_of_lt child, .refl c⟩

/-- One more message is sent, by no monitor or by one that has sent nothing before. -/
theorem Delivered.sends {d d' : Daemon} (h : Delivered d) {m : Message}
    (forth : ∀ (task : Nat) (c : Child), d.children[task]? = some c →
      ∃ c', d'.children[task]? = some c' ∧ c.Becomes c')
    (sent : d'.sent = d.sent ++ [m]) (handled : d'.handled = d.handled) (events : d'.events = d.events ++ [m])
    (reported : ∀ task, m.sender = some task → ∃ c result, d'.children[task]? = some c ∧
      c.monitor = .sent ∧ c.reaped = some result ∧ m.event = c.report result)
    (anonymous : m.sender = none → m.event.isReport = false)
    (fresh : ∀ task, m.sender = some task → ∀ x ∈ d.sent, x.sender ≠ some task) : Delivered d' := by
  constructor
  · rw [sent, handled, events, h.fifo, List.append_assoc]
  · rw [sent, List.forall_mem_append, List.forall_mem_singleton]
    exact ⟨fun x member task hx => reported_ages forth (h.reported x member task hx), reported⟩
  · rw [sent, List.forall_mem_append, List.forall_mem_singleton]
    exact ⟨h.anonymous, anonymous⟩
  · rw [sent, List.filterMap_append]
    refine h.distinct.append ?_ fun task earlier new => ?_
    · cases sender : m.sender <;> simp [sender]
    · obtain ⟨x, member, hx⟩ := List.mem_filterMap.mp earlier
      obtain ⟨y, same, hy⟩ := List.mem_filterMap.mp new
      rw [List.mem_singleton.mp same] at hy
      exact fresh task hy x member hx

/-- Nothing is sent; at most a message is handed out. -/
theorem Delivered.rests {d d' : Daemon} (h : Delivered d)
    (forth : ∀ (task : Nat) (c : Child), d.children[task]? = some c →
      ∃ c', d'.children[task]? = some c' ∧ c.Becomes c')
    (sent : d'.sent = d.sent) (fifo : d'.handled ++ d'.events = d.handled ++ d.events) : Delivered d' where
  fifo := by rw [sent, h.fifo, fifo]
  reported m member task sender := reported_ages forth (h.reported m (sent ▸ member) task sender)
  anonymous := by rw [sent]; exact h.anonymous
  distinct := by rw [sent]; exact h.distinct

theorem Delivered.moved {d d' : Daemon} {move : Move} (h : Delivered d) (moved : Moved split d move d') :
    Delivered d' := by
  have forth := moved.forth
  cases moved.traffic with
  | none sent handled events => exact h.rests forth sent (by rw [handled, events])
  | announces name sent handled events | requests name _ _ sent handled events =>
    exact h.sends forth sent handled events (by simp) (fun _ => rfl) (by simp)
  | reports task c result sent handled events child waiting reaped children =>
    refine h.sends forth sent handled events ?_ (by simp) ?_
    · intro other sender
      cases sender
      exact ⟨{ c with monitor := .sent }, result, children ▸ getElem?_set_here _ child, rfl, reaped, by
        cases result <;> rfl⟩
    · -- the sender was still waiting, so it is none of the earlier senders
      intro other sender x member hx
      cases sender
      obtain ⟨c', _, child', hsent, _⟩ := h.reported x member task hx
      rw [child, Option.some.injEq] at child'
      subst child'
      rw [waiting] at hsent; cases hsent
  | takes m rest queued sent handled events =>
    exact h.rests forth sent (by rw [handled, events, queued, List.append_assoc]; rfl)

theorem loadFromConfig_delivered (program : List (String × ProgramConfig)) :
    Delivered (loadFromConfig program) := by
  obtain ⟨_, hevents, _, _, hhistory, _⟩ := loadFromConfig_fresh program
  have hsent : (loadFromConfig program).sent = [] := by rw [sent, hhistory]; rfl
  constructor
  · rw [hsent, handled, hhistory, hevents]; rfl
  · rw [hsent]; simp
  · rw [hsent]; simp
  · rw [hsent]; exact List.nodup_nil

theorem Delivered.queued {d : Daemon} (h : Delivered d) {m : Message} (member : m ∈ d.events) :
    m ∈ d.sent := by
  rw [h.fifo]
  exact List.mem_append_right _ member

end Daemon

theorem System.Reached.delivered {s : System} (h : s.Reached split) : s.toDaemon.Delivered :=
  h.daemon_invariant Daemon.loadFromConfig_delivered
    fun _ _ _ delivered happly => delivered.moved (Daemon.apply_moved happly)

end Ciron
