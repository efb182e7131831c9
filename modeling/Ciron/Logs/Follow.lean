import Mathlib.Data.List.Nodup
import Mathlib.Logic.Function.Basic
import Ciron.Data.History
import Ciron.Logs.Buffer
import Ciron.Transition.Run

/-! # Following the logs of a program

One `get_logs(follow = true, lines = 0)` call beside the program's log readers.  A reader
appends a line to the buffer and then, as a separate step, broadcasts it; the call takes the
snapshot and then, as a separate step, subscribes; a task streams the snapshot and whatever
the receiver holds.  The receiver never lags behind here.

A line is known by its place in the order of appends (`Entry.number`).  The code keeps no such
number, nor the `appended` and `broadcasts` that record what happened, oldest first. -/

namespace Ciron

open Data Transition

structure Entry where
  line : LogLine
  number : Nat
deriving DecidableEq, Repr

/-- The streaming task.  `before` lines had been appended when the snapshot `recent` was taken,
    `missed` lines broadcast when the call subscribed. -/
structure Following where
  recent : List Entry
  before : Nat
  missed : Nat
  unsent : List Entry
  queue : List Entry := []
  streamed : List Entry := []
deriving DecidableEq, Repr

inductive Client where
  | asking
  | subscribing (recent : List Entry) (before : Nat)
  | following (stream : Following)
deriving DecidableEq, Repr

/-- `pending` is the line that a reader has appended and not broadcast yet. -/
structure Logs where
  name : String
  config : ProgramConfig
  buffer : List Entry := []
  pending : Nat → Option Entry := fun _ => none
  client : Client := .asking
  appended : List Entry := []
  broadcasts : List Entry := []

inductive LogAction where
  | append (reader : Nat) (line : LogLine)
  | broadcast (reader : Nat)
  | snapshot
  | subscribe
  | stream
deriving DecidableEq, Repr

namespace Logs

/-- `log_tx.send(entry)`: the receiver gets it if there is one. -/
def deliver (entry : Entry) : Client → Client
  | .following stream => .following { stream with queue := stream.queue ++ [entry] }
  | client => client

def step (s : Logs) : LogAction → Option Logs
  | .append reader line =>
    match s.config.logForward, s.pending reader with
    | true, none =>
      let entry : Entry := { line, number := s.appended.length }
      some { s with
        buffer := pushLog s.buffer entry
        pending := Function.update s.pending reader (some entry)
        appended := s.appended ++ [entry] }
    | _, _ => none
  | .broadcast reader =>
    match s.pending reader with
    | some entry =>
      some { s with
        pending := Function.update s.pending reader none
        client := deliver entry s.client
        broadcasts := s.broadcasts ++ [entry] }
    | none => none
  | .snapshot =>
    match s.client, getRecentLogs s.name s.config s.buffer 0 with
    | .asking, .ok recent => some { s with client := .subscribing recent s.appended.length }
    | _, _ => none
  | .subscribe =>
    match s.client, subscribeLogs s.name s.config with
    | .subscribing recent before, .ok _ =>
      some { s with client := .following { recent, before, missed := s.broadcasts.length, unsent := recent } }
    | _, _ => none
  | .stream =>
    match s.client with
    | .following stream =>
      match stream.unsent, stream.queue with
      | entry :: rest, _ =>
        some { s with client := .following { stream with
          unsent := rest, streamed := stream.streamed ++ [entry] } }
      | [], entry :: rest =>
        some { s with client := .following { stream with
          queue := rest, streamed := stream.streamed ++ [entry] } }
      | [], [] => none
    | _ => none

/-- Nothing was logged yet, and the call has just come in. -/
def start (name : String) (config : ProgramConfig) : Logs := { name, config }

/-! ## One case for each effect -/

inductive Stepped (s : Logs) : LogAction → Logs → Prop
  | appends {reader : Nat} {line : LogLine} (idle : s.pending reader = none) :
      Stepped s (.append reader line) { s with
        buffer := pushLog s.buffer { line, number := s.appended.length }
        pending := Function.update s.pending reader (some { line, number := s.appended.length })
        appended := s.appended ++ [{ line, number := s.appended.length }] }
  | broadcasts {reader : Nat} {entry : Entry} (pends : s.pending reader = some entry) :
      Stepped s (.broadcast reader) { s with
        pending := Function.update s.pending reader none
        client := deliver entry s.client
        broadcasts := s.broadcasts ++ [entry] }
  | snapshots (asking : s.client = .asking) :
      Stepped s .snapshot { s with client := .subscribing s.buffer s.appended.length }
  | subscribes {recent : List Entry} {before : Nat} (subscribing : s.client = .subscribing recent before) :
      Stepped s .subscribe { s with
        client := .following { recent, before, missed := s.broadcasts.length, unsent := recent } }
  | streams {stream stream' : Following} (following : s.client = .following stream)
      (recent : stream'.recent = stream.recent) (before : stream'.before = stream.before)
      (missed : stream'.missed = stream.missed)
      (carried : stream'.streamed ++ stream'.unsent ++ stream'.queue =
        stream.streamed ++ stream.unsent ++ stream.queue) :
      Stepped s .stream { s with client := .following stream' }

theorem step_stepped {s t : Logs} {a : LogAction} (h : s.step a = some t) : Stepped s a t := by
  cases a with
  | append reader line =>
    simp only [step] at h
    split at h
    · rename_i idle
      cases h
      exact .appends idle
    · cases h
  | broadcast reader =>
    simp only [step] at h
    split at h
    · rename_i pends
      cases h
      exact .broadcasts pends
    · cases h
  | snapshot =>
    simp only [step] at h
    split at h
    · rename_i recent asking buffered
      cases h
      cases getRecentLogs_zero buffered
      exact .snapshots asking
    · cases h
  | subscribe =>
    simp only [step] at h
    split at h
    · rename_i subscribing _
      cases h
      exact .subscribes subscribing
    · cases h
  | stream =>
    simp only [step] at h
    split at h
    · rename_i stream following
      split at h
      · rename_i entry rest unsent
        cases h
        exact .streams following rfl rfl rfl (by simp [unsent])
      · rename_i entry rest unsent queue
        cases h
        exact .streams following rfl rfl rfl (by simp [unsent, queue])
      · cases h
    · cases h

/-! ## Where the lines are -/

/-- Every line appended is held by one reader or was broadcast once. -/
structure Placed (appended broadcasts : List Entry) (pending : Nat → Option Entry) : Prop where
  numbered : ∀ i (e : Entry), appended[i]? = some e → e.number = i
  pends : ∀ reader e, pending reader = some e → e ∈ appended ∧ e ∉ broadcasts
  apart : ∀ reader other e, pending reader = some e → pending other = some e → reader = other
  sent : ∀ e ∈ broadcasts, e ∈ appended
  once : broadcasts.Nodup
  all : ∀ e ∈ appended, e ∈ broadcasts ∨ ∃ reader, pending reader = some e

section

variable {appended broadcasts : List Entry} {pending : Nat → Option Entry}

theorem Placed.number_lt (h : Placed appended broadcasts pending) {e : Entry} (member : e ∈ appended) :
    e.number < appended.length := by
  obtain ⟨i, hi⟩ := List.mem_iff_getElem?.mp member
  rw [h.numbered i e hi]
  exact (List.getElem?_eq_some_iff.mp hi).1

theorem Placed.getElem? (h : Placed appended broadcasts pending) {e : Entry} (member : e ∈ appended) :
    appended[e.number]? = some e := by
  obtain ⟨i, hi⟩ := List.mem_iff_getElem?.mp member
  rw [h.numbered i e hi, hi]

/-- The entries of a list that follows the appends from the `n`-th line on. -/
theorem Placed.mem_prefix_iff (h : Placed appended broadcasts pending) {n : Nat} {received : List Entry}
    (follows : received <+: appended.drop n) {e : Entry} :
    e ∈ received ↔ e ∈ appended ∧ n ≤ e.number ∧ e.number < n + received.length := by
  obtain ⟨rest, hrest⟩ := follows
  have position : ∀ i, i < received.length → received[i]? = appended[n + i]? := fun i bound => by
    rw [← List.getElem?_drop, ← hrest, List.getElem?_append_left bound]
  constructor
  · intro member
    obtain ⟨i, hi⟩ := List.mem_iff_getElem?.mp member
    have bound := (List.getElem?_eq_some_iff.mp hi).1
    rw [position i bound] at hi
    have number := h.numbered _ _ hi
    exact ⟨List.mem_of_getElem? hi, by omega, by omega⟩
  · rintro ⟨member, after, bound⟩
    refine List.mem_of_getElem? (i := e.number - n) ?_
    rw [position _ (by omega), Nat.add_sub_cancel' after, h.getElem? member]

/-- An idle reader appends the next line. -/
theorem Placed.append (h : Placed appended broadcasts pending) {reader : Nat} (idle : pending reader = none)
    {new : Entry} (number : new.number = appended.length) :
    Placed (appended ++ [new]) broadcasts (Function.update pending reader (some new)) := by
  -- its number is larger than all those given so far
  have fresh : new ∉ appended := fun member => by
    have := h.number_lt member
    omega
  constructor
  · intro i e hi
    rw [List.getElem?_append] at hi
    split at hi
    · exact h.numbered i e hi
    · rw [List.getElem?_singleton] at hi
      split at hi
      · cases hi; omega
      · cases hi
  · intro other e pends
    by_cases same : other = reader
    · subst same
      rw [Function.update_self, Option.some.injEq] at pends
      subst pends
      exact ⟨by simp, fun broadcast => fresh (h.sent new broadcast)⟩
    · rw [Function.update_of_ne same] at pends
      obtain ⟨member, unsent⟩ := h.pends other e pends
      exact ⟨List.mem_append_left _ member, unsent⟩
  · intro first second e pends pends'
    simp only [Function.update_apply] at pends pends'
    split at pends <;> split at pends'
    · rename_i same same'
      exact same.trans same'.symm
    · rw [← pends] at pends'
      exact absurd (h.pends second new pends').1 fresh
    · rw [← pends'] at pends
      exact absurd (h.pends first new pends).1 fresh
    · exact h.apart first second e pends pends'
  · exact fun e broadcast => List.mem_append_left _ (h.sent e broadcast)
  · exact h.once
  · intro e member
    cases List.mem_append.mp member with
    | inl old =>
      refine (h.all e old).imp_right fun ⟨other, pends⟩ => ⟨other, ?_⟩
      have different : other ≠ reader := by
        rintro rfl
        rw [idle] at pends; cases pends
      rw [Function.update_of_ne different, pends]
    | inr last =>
      rw [List.mem_singleton.mp last]
      exact .inr ⟨reader, Function.update_self ..⟩

/-- A reader broadcasts the line it holds. -/
theorem Placed.broadcast (h : Placed appended broadcasts pending) {reader : Nat} {entry : Entry}
    (pends : pending reader = some entry) :
    Placed appended (broadcasts ++ [entry]) (Function.update pending reader none) := by
  -- what a reader holds afterwards it held before, and it is another reader
  have elsewhere : ∀ {other e}, Function.update pending reader none other = some e →
      other ≠ reader ∧ pending other = some e := by
    intro other e held
    rw [Function.update_apply] at held
    split at held
    · cases held
    · exact ⟨‹_›, held⟩
  obtain ⟨member, unsent⟩ := h.pends reader entry pends
  constructor
  · exact h.numbered
  · intro other e held
    obtain ⟨different, held⟩ := elsewhere held
    obtain ⟨hmember, hunsent⟩ := h.pends other e held
    refine ⟨hmember, fun broadcast => ?_⟩
    cases List.mem_append.mp broadcast with
    | inl old => exact hunsent old
    | inr last =>
      rw [List.mem_singleton.mp last] at held
      exact different (h.apart other reader entry held pends)
  · exact fun first second e held held' => h.apart first second e (elsewhere held).2 (elsewhere held').2
  · intro e broadcast
    cases List.mem_append.mp broadcast with
    | inl old => exact h.sent e old
    | inr last =>
      rw [List.mem_singleton.mp last]
      exact member
  · exact h.once.append (List.nodup_singleton entry) (by simpa using unsent)
  · intro e appended
    cases h.all e appended with
    | inl broadcast => exact .inl (List.mem_append_left _ broadcast)
    | inr holder =>
      obtain ⟨other, held⟩ := holder
      by_cases same : other = reader
      · subst same
        rw [pends, Option.some.injEq] at held
        exact .inl (by simp [held])
      · exact .inr ⟨other, by rw [Function.update_of_ne same, held]⟩

end

theorem Placed.stepped {s t : Logs} {a : LogAction} (h : Placed s.appended s.broadcasts s.pending)
    (stepped : Stepped s a t) : Placed t.appended t.broadcasts t.pending := by
  cases stepped with
  | appends idle => exact h.append idle rfl
  | broadcasts pends => exact h.broadcast pends
  | snapshots | subscribes | streams => exact h

/-- The receiver has been handed what was broadcast since the subscription. -/
structure Carried (s : Logs) : Prop where
  subscribing : ∀ recent before, s.client = .subscribing recent before → before ≤ s.appended.length
  following : ∀ stream, s.client = .following stream → stream.before ≤ s.appended.length ∧
    stream.missed ≤ s.broadcasts.length ∧
    stream.streamed ++ stream.unsent ++ stream.queue = stream.recent ++ s.broadcasts.drop stream.missed

theorem Carried.stepped {s t : Logs} {a : LogAction} (h : Carried s) (stepped : Stepped s a t) : Carried t := by
  cases stepped with
  | @appends reader line idle =>
    refine ⟨fun recent before client => ?_, fun stream client => ?_⟩
    · have := h.subscribing recent before client
      simp only [List.length_append]
      omega
    · obtain ⟨counted, missed, carried⟩ := h.following stream client
      exact ⟨by simp only [List.length_append]; omega, missed, carried⟩
  | @broadcasts reader entry pends =>
    refine ⟨fun recent before client => ?_, fun stream' client => ?_⟩
    · cases held : s.client <;> simp only [held, deliver] at client
      · cases client
      · cases client
        exact h.subscribing _ _ held
      · cases client
    · cases held : s.client <;> simp only [held, deliver] at client
      · cases client
      · cases client
      · rename_i stream
        cases client
        obtain ⟨counted, missed, carried⟩ := h.following stream held
        refine ⟨counted, by simp only [List.length_append]; omega, ?_⟩
        -- the receiver and the record of broadcasts grow by the same line
        rw [List.drop_append_of_le_length missed, ← List.append_assoc, ← List.append_assoc, carried]
  | snapshots =>
    refine ⟨fun recent before client => ?_, nofun⟩
    cases client
    exact Nat.le_refl _
  | @subscribes recent before subscribing =>
    refine ⟨nofun, fun stream client => ?_⟩
    cases client
    exact ⟨h.subscribing recent before subscribing, Nat.le_refl _, by simp⟩
  | @streams stream stream' following recent before missed carried =>
    refine ⟨nofun, fun stream'' client => ?_⟩
    cases client
    rw [before, missed, carried, recent]
    exact h.following stream following

/-! ## Which orders of steps keep the stream faithful -/

structure Sound (s : Logs) : Prop where
  placed : Placed s.appended s.broadcasts s.pending
  carried : Carried s

theorem Sound.step {s t : Logs} {a : LogAction} (h : Sound s) (hstep : s.step a = some t) : Sound t :=
  ⟨h.placed.stepped (step_stepped hstep), h.carried.stepped (step_stepped hstep)⟩

theorem start_sound (name : String) (config : ProgramConfig) : Sound (start name config) where
  placed := ⟨nofun, nofun, nofun, nofun, List.nodup_nil, nofun⟩
  carried := ⟨nofun, nofun⟩

/-- So far no line of the stream is lost, streamed twice or out of place. -/
def Faithful (s : Logs) : Prop :=
  match s.client with
  | .asking => True
  | .subscribing _ before => ∀ e ∈ s.broadcasts, e.number < before
  | .following stream =>
    (∀ reader (e : Entry), s.pending reader = some e → stream.before ≤ e.number) ∧
    (∀ e ∈ s.broadcasts.take stream.missed, e.number < stream.before) ∧
    s.broadcasts.drop stream.missed <+: s.appended.drop stream.before

/-- The step is in order: before the subscription only lines of before the snapshot are
    broadcast, at the subscription no such line is left with a reader, and from then on the
    readers broadcast in the order of their appends. -/
def InOrder (s : Logs) (a : LogAction) : Prop :=
  match a, s.client with
  | .broadcast reader, .subscribing _ before =>
    ∀ e : Entry, s.pending reader = some e → e.number < before
  | .subscribe, .subscribing _ before =>
    ∀ reader (e : Entry), s.pending reader = some e → before ≤ e.number
  | .broadcast reader, .following _ =>
    ∀ e : Entry, s.pending reader = some e → ∀ other e', s.pending other = some e' → e.number ≤ e'.number
  | _, _ => True

theorem faithful_following {s : Logs} {stream : Following} (client : s.client = .following stream) :
    Faithful s ↔ (∀ reader e, s.pending reader = some e → stream.before ≤ e.number) ∧
      (∀ e ∈ s.broadcasts.take stream.missed, e.number < stream.before) ∧
      s.broadcasts.drop stream.missed <+: s.appended.drop stream.before := by
  rw [Faithful, client]

theorem faithful_subscribing {s : Logs} {recent : List Entry} {before : Nat}
    (client : s.client = .subscribing recent before) :
    Faithful s ↔ ∀ e ∈ s.broadcasts, e.number < before := by
  rw [Faithful, client]

theorem faithful_asking {s : Logs} (client : s.client = .asking) : Faithful s := by
  rw [Faithful, client]; trivial

/-- The reader's line is the next one of the stream exactly when no reader holds an earlier one. -/
theorem next_iff {s : Logs} (h : Sound s) {stream : Following} (client : s.client = .following stream)
    (faithful : Faithful s) {reader : Nat} {entry : Entry} (pends : s.pending reader = some entry) :
    (s.appended.drop stream.before)[(s.broadcasts.drop stream.missed).length]? = some entry ↔
      ∀ other e, s.pending other = some e → entry.number ≤ e.number := by
  obtain ⟨late, early, follows⟩ := (faithful_following client).mp faithful
  have received : ∀ e, _ := fun e => h.placed.mem_prefix_iff follows (e := e)
  -- a line that a reader holds comes after all those received
  have held : ∀ other e, s.pending other = some e →
      stream.before + (s.broadcasts.drop stream.missed).length ≤ e.number := by
    intro other e hpends
    obtain ⟨member, unsent⟩ := h.placed.pends other e hpends
    by_contra behind
    have sent := (received e).mpr ⟨member, late other e hpends, by omega⟩
    exact unsent (List.mem_of_mem_drop sent)
  rw [List.getElem?_drop]
  constructor
  · intro next other e hpends
    rw [h.placed.numbered _ _ next]
    exact held other e hpends
  · intro least
    have reached := held reader entry pends
    have entryAt := h.placed.getElem? (h.placed.pends reader entry pends).1
    cases Nat.lt_or_eq_of_le reached with
    | inl beyond =>
      -- the line due next is neither broadcast nor held by a reader
      have bound := (List.getElem?_eq_some_iff.mp entryAt).1
      obtain ⟨due, hdue⟩ : ∃ due, s.appended[stream.before + (s.broadcasts.drop stream.missed).length]? =
          some due := ⟨_, List.getElem?_eq_getElem (Nat.lt_trans beyond bound)⟩
      have number := h.placed.numbered _ _ hdue
      cases h.placed.all due (List.mem_of_getElem? hdue) with
      | inl sent =>
        rw [← List.take_append_drop stream.missed s.broadcasts, List.mem_append] at sent
        cases sent with
        | inl missed => have := early due missed; omega
        | inr sent => have := ((received due).mp sent).2; omega
      | inr holder =>
        obtain ⟨other, hpends⟩ := holder
        have := least other due hpends; omega
    | inr next => rw [next, entryAt]

theorem step_faithful {s t : Logs} {a : LogAction} (h : Sound s) (faithful : Faithful s)
    (hstep : s.step a = some t) : Faithful t ↔ InOrder s a := by
  cases step_stepped hstep with
  | @appends reader line idle =>
    refine iff_of_true ?_ (by simp [InOrder])
    cases client : s.client with
    | asking => exact faithful_asking rfl
    | subscribing recent before =>
      have early := (faithful_subscribing client).mp faithful
      exact (faithful_subscribing rfl).mpr early
    | following stream =>
      obtain ⟨late, early, follows⟩ := (faithful_following client).mp faithful
      have counted := (h.carried.following stream client).1
      refine (faithful_following rfl).mpr ⟨fun other e held => ?_, early, ?_⟩
      · dsimp only at held
        rw [Function.update_apply] at held
        split at held
        · cases held; exact counted
        · exact late other e held
      · rw [List.drop_append_of_le_length counted]
        exact follows.trans (List.prefix_append ..)
  | @broadcasts reader entry pends =>
    cases client : s.client with
    | asking => exact iff_of_true (faithful_asking rfl) (by simp [InOrder, client])
    | subscribing recent before =>
      have early := (faithful_subscribing client).mp faithful
      rw [faithful_subscribing rfl]
      simp only [InOrder, client, pends, Option.some.injEq, forall_eq', List.forall_mem_append,
        List.forall_mem_singleton]
      exact ⟨And.right, fun first => ⟨early, first⟩⟩
    | following stream =>
      obtain ⟨late, early, follows⟩ := (faithful_following client).mp faithful
      have missed := (h.carried.following stream client).2.1
      rw [faithful_following rfl]
      simp only [InOrder, client, pends, Option.some.injEq, forall_eq', ← next_iff h client faithful pends]
      rw [List.take_append_of_le_length missed, List.drop_append_of_le_length missed, concat_prefix_iff]
      refine ⟨fun next => next.2.2.2, fun next => ⟨fun other e held => ?_, early, follows, next⟩⟩
      rw [Function.update_apply] at held
      split at held
      · cases held
      · exact late other e held
  | snapshots asking =>
    -- whatever was broadcast had been appended, so before the snapshot
    refine iff_of_true ((faithful_subscribing rfl).mpr fun e sent => ?_) (by simp [InOrder])
    exact h.placed.number_lt (h.placed.sent e sent)
  | @subscribes recent before subscribing =>
    have early := (faithful_subscribing subscribing).mp faithful
    rw [faithful_following rfl]
    simp only [InOrder, subscribing]
    refine ⟨And.left, fun late => ⟨late, ?_, ?_⟩⟩
    · rwa [List.take_length]
    · rw [List.drop_length]
      exact List.nil_prefix
  | streams following recent before missed carried =>
    refine iff_of_true ?_ (by simp [InOrder])
    rw [faithful_following rfl, before, missed]
    exact (faithful_following following).mp faithful

/-- A line that is lost, doubled or out of place stays so. -/
theorem faithful_back {s t : Logs} {a : LogAction} (h : Sound s) (hstep : s.step a = some t)
    (faithful : Faithful t) : Faithful s := by
  cases step_stepped hstep with
  | @appends reader line idle =>
    cases client : s.client with
    | asking => exact faithful_asking client
    | subscribing recent before =>
      rw [client] at faithful
      have early := (faithful_subscribing rfl).mp faithful
      exact (faithful_subscribing client).mpr early
    | following stream =>
      rw [client] at faithful
      obtain ⟨late, early, follows⟩ := (faithful_following rfl).mp faithful
      have counted := (h.carried.following stream client).1
      refine (faithful_following client).mpr ⟨fun other e held => late other e ?_, early, ?_⟩
      · have different : other ≠ reader := by
          rintro rfl
          rw [idle] at held; cases held
        exact (Function.update_of_ne different ..).trans held
      · dsimp only at follows
        rw [List.drop_append_of_le_length counted, List.prefix_concat_iff] at follows
        refine follows.resolve_left fun whole => ?_
        -- the new line cannot have been broadcast yet
        have last : ({ line, number := s.appended.length } : Entry) ∈ s.broadcasts :=
          List.mem_of_mem_drop (whole ▸ List.mem_append_right _ (List.mem_singleton_self _))
        exact Nat.lt_irrefl _ (h.placed.number_lt (h.placed.sent _ last))
  | @broadcasts reader entry pends =>
    cases client : s.client with
    | asking => exact faithful_asking client
    | subscribing recent before =>
      rw [client] at faithful
      have early := (faithful_subscribing rfl).mp faithful
      exact (faithful_subscribing client).mpr fun e sent => early e (List.mem_append_left _ sent)
    | following stream =>
      rw [client] at faithful
      obtain ⟨late, early, follows⟩ := (faithful_following rfl).mp faithful
      have missed := (h.carried.following stream client).2.1
      dsimp only at late early follows
      rw [List.take_append_of_le_length missed] at early
      rw [List.drop_append_of_le_length missed] at follows
      refine (faithful_following client).mpr
        ⟨fun other e held => ?_, early, (concat_prefix_iff.mp follows).1⟩
      by_cases same : other = reader
      · subst same
        rw [pends, Option.some.injEq] at held
        subst held
        exact ((h.placed.mem_prefix_iff follows).mp (List.mem_append_right _ (List.mem_singleton_self _))).2.1
      · exact late other e ((Function.update_of_ne same ..).trans held)
  | snapshots asking => exact faithful_asking asking
  | @subscribes recent before subscribing =>
    obtain ⟨_, early, _⟩ := (faithful_following rfl).mp faithful
    dsimp only at early
    rw [List.take_length] at early
    exact (faithful_subscribing subscribing).mpr early
  | streams following recent before missed carried =>
    rw [faithful_following rfl, before, missed] at faithful
    exact (faithful_following following).mpr faithful

/-- The call has streamed all it was handed, and the readers hold nothing. -/
structure Settled (s : Logs) (stream : Following) : Prop where
  client : s.client = .following stream
  unsent : stream.unsent = []
  queue : stream.queue = []
  idle : ∀ reader, s.pending reader = none

theorem settled_faithful {s : Logs} (h : Sound s) {stream : Following} (settled : Settled s stream) :
    Faithful s ↔ stream.streamed = stream.recent ++ s.appended.drop stream.before := by
  have carried := (h.carried.following stream settled.client).2.2
  rw [settled.unsent, settled.queue, List.append_nil, List.append_nil] at carried
  -- no reader holds a line, so every line appended was broadcast
  have sent : ∀ e ∈ s.appended, e ∈ s.broadcasts := fun e member =>
    (h.placed.all e member).resolve_right fun ⟨reader, held⟩ => by
      rw [settled.idle reader] at held; cases held
  rw [carried, List.append_cancel_left_eq, faithful_following settled.client]
  constructor
  · rintro ⟨_, early, follows⟩
    refine follows.eq_of_length_le (Nat.le_of_not_lt fun short => ?_)
    -- the first line after those received was broadcast too, but neither before nor among them
    obtain ⟨due, hdue⟩ : ∃ due, (s.appended.drop stream.before)[(s.broadcasts.drop stream.missed).length]? =
        some due := ⟨_, List.getElem?_eq_getElem short⟩
    rw [List.getElem?_drop] at hdue
    have number := h.placed.numbered _ _ hdue
    have broadcast := sent due (List.mem_of_getElem? hdue)
    rw [← List.take_append_drop stream.missed s.broadcasts, List.mem_append] at broadcast
    cases broadcast with
    | inl missed => have := early due missed; omega
    | inr received => have := ((h.placed.mem_prefix_iff follows).mp received).2; omega
  · intro received
    refine ⟨fun reader e held => ?_, fun e missed => ?_, received ▸ List.prefix_refl _⟩
    · rw [settled.idle reader] at held; cases held
    · -- a line of after the snapshot that was missed would have been broadcast twice
      by_contra late
      have member := h.placed.sent e (List.mem_of_mem_take missed)
      have after : e ∈ s.broadcasts.drop stream.missed := by
        rw [received]
        refine List.mem_of_getElem? (i := e.number - stream.before) ?_
        rw [List.getElem?_drop, Nat.add_sub_cancel' (Nat.le_of_not_lt late), h.placed.getElem? member]
      have once := h.placed.once
      rw [← List.take_append_drop stream.missed s.broadcasts] at once
      exact List.disjoint_of_nodup_append once missed after

/-- The stream is the snapshot followed by every line appended afterwards, each once and in
    order, if and only if every step of the run was in order. -/
theorem streamed_iff {name : String} {config : ProgramConfig} {trace : List (Logs × LogAction)} {s : Logs}
    (run : Exec step (start name config) trace s) {stream : Following} (settled : Settled s stream) :
    stream.streamed = stream.recent ++ s.appended.drop stream.before ↔
      ∀ p ∈ trace, InOrder p.1 p.2 := by
  have reached := (run.invariant (fun _ _ _ h hstep => Sound.step h hstep) (start_sound name config)).1
  rw [← settled_faithful reached settled]
  exact run.last_good_iff (fun _ _ _ h hstep => h.step hstep) (fun _ _ _ => faithful_back)
    (fun _ _ _ => step_faithful) (start_sound name config) trivial

/-- Two readers, with a line each before the snapshot and a line each after the subscription. -/
theorem streamed_iff_two : ∃ (trace : List (Logs × LogAction)) (s : Logs) (stream : Following),
    Exec step (start "web" { command := "web", logForward := true }) trace s ∧ Settled s stream ∧
    stream.recent.length = 2 ∧ s.appended.length = 4 ∧ stream.streamed.length = 4 ∧
    (stream.streamed = stream.recent ++ s.appended.drop stream.before ↔ ∀ p ∈ trace, InOrder p.1 p.2) := by
  let out (message : String) : LogLine := { timestampMs := 0, source := .stdout, message }
  let err (message : String) : LogLine := { timestampMs := 0, source := .stderr, message }
  obtain ⟨s, hs, stream, settled, recent, appended, streamed⟩ :
      ∃ s, runs step (start "web" { command := "web", logForward := true })
        [.append 0 (out "one"), .broadcast 0, .append 1 (err "two"), .broadcast 1, .snapshot, .subscribe,
          .append 1 (err "three"), .append 0 (out "four"), .broadcast 1, .stream, .stream, .broadcast 0, .stream,
          .stream] = some s ∧
      ∃ stream, Settled s stream ∧ stream.recent.length = 2 ∧ s.appended.length = 4 ∧
        stream.streamed.length = 4 := by
    refine ⟨_, rfl, _, ⟨rfl, rfl, rfl, fun reader => ?_⟩, rfl, rfl, rfl⟩
    rcases reader with _ | _ | reader <;> rfl
  obtain ⟨trace, run, _⟩ := exec_of_runs hs
  exact ⟨trace, s, stream, run, settled, recent, appended, streamed, streamed_iff run settled⟩

/-- A line appended and broadcast between the snapshot and the subscription is in neither. -/
theorem line_lost : ∃ (s : Logs) (stream : Following),
    runs step (start "web" { command := "web", logForward := true })
      [.snapshot, .append 0 { timestampMs := 0, source := .stdout, message := "ready" }, .broadcast 0,
        .subscribe] = some s ∧
    Settled s stream ∧ stream.streamed ≠ stream.recent ++ s.appended.drop stream.before := by
  exact ⟨_, _, rfl, ⟨rfl, rfl, rfl, fun reader => by cases reader <;> rfl⟩, nofun⟩

end Logs

end Ciron
