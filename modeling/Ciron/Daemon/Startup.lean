import Ciron.Common.Transport
import Ciron.Process.Autostart

/-! # The start of the daemon

`main` up to the point where its servers are spawned: the choice of the transports and the
boot.  The address of the inet transport comes from the command line, where
`Transport::parse` reads it, or from the configuration, where `main` takes it apart itself.
The two agree on every address of two fields; any other one the second way passes over:
`sameInet_iff`. -/

namespace Ciron

open Data

/-- `cfg(unix)` and `cfg(target_os = "linux")`. -/
structure Platform where
  unix : Bool := true
  linux : Bool := true

/-- What `enable_inet` adds to the transports. -/
def configuredInet (address : String) : Except String (List Transport) :=
  match splitChar ':' address with
  | [host, port] =>
    match Transport.parseU16 port with
    | .error kind => .error (toString kind)
    | .ok port => .ok [.inet host port]
  -- there is no `else`
  | _ => .ok []

def configuredUnix (platform : Platform) (config : TransportConfig) : List Transport :=
  if config.enableUnix && platform.unix then [.unix config.unixSocketPath] else []

def configuredVsock (platform : Platform) (config : TransportConfig) : List Transport :=
  if config.enableVsock && platform.linux then [.vsock config.vsockCid config.vsockPort] else []

/-- `cli` is the `--transport` option. -/
def determineTransports (platform : Platform) (cli : Option String) (config : TransportConfig) :
    Except String (List Transport) :=
  match cli with
  | some transport => (Transport.parse transport).map fun t => [t]
  | none =>
    match if config.enableInet then configuredInet config.inetAddress else .ok [] with
    | .error e => .error e
    | .ok fromInet =>
      let transports := configuredUnix platform config ++ fromInet ++ configuredVsock platform config
      if transports.isEmpty then .error "At least one transport must be enabled" else .ok transports

/-- The outer `none` is a panic; `keys` and `os` are those of the boot. -/
def startup (split : String → Option (List String)) (platform : Platform) (cli : Option String)
    (config : GlobalConfig) (keys : List String) (os : String → String → Option Nat) :
    Option (Except String (List Transport × Daemon)) :=
  match determineTransports platform cli config.transport with
  | .error e => some (.error e)
  | .ok transports =>
    ((Daemon.loadFromConfig config.program).startAllAutostart split keys os).map fun d => .ok (transports, d)

/-- With `address` from the configuration the daemon does what it would do with
    `inet://address`: it comes up with that inet transport, or it does not come up. -/
structure SameInet (address : String) (outcome : Option (Except String (List Transport × Daemon))) :
    Prop where
  accepted : ∀ t, Transport.parse ("inet://" ++ address) = .ok t → ∃ host port transports d,
    t = .inet host port ∧ outcome = some (.ok (transports, d)) ∧ .inet host port ∈ transports
  rejected : ∀ e, Transport.parse ("inet://" ++ address) = .error e → ∃ e', outcome = some (.error e')

section

variable (split : String → Option (List String)) (platform : Platform) (config : GlobalConfig)

/-- Once there are transports nothing keeps the daemon from coming up. -/
theorem startup_ok {cli : Option String} {transports : List Transport}
    (determined : determineTransports platform cli config.transport = .ok transports) (keys : List String)
    (os : String → String → Option Nat) :
    ∃ d, startup split platform cli config keys os = some (.ok (transports, d)) := by
  obtain ⟨d, boots⟩ :=
    Daemon.startAllAutostart_total split (Daemon.loadFromConfig config.program) keys os
  exact ⟨d, by simp only [startup, determined, boots, Option.map_some]⟩

theorem startup_error {cli : Option String} {e : String}
    (determined : determineTransports platform cli config.transport = .error e) (keys : List String)
    (os : String → String → Option Nat) :
    startup split platform cli config keys os = some (.error e) := by
  simp only [startup, determined]

theorem determineTransports_inet (enabled : config.transport.enableInet = true) {fromInet : List Transport}
    (configured : configuredInet config.transport.inetAddress = .ok fromInet)
    (nonempty : configuredUnix platform config.transport ++ fromInet ++
      configuredVsock platform config.transport ≠ []) :
    determineTransports platform none config.transport =
      .ok (configuredUnix platform config.transport ++ fromInet ++ configuredVsock platform config.transport) := by
  simp only [determineTransports, enabled, configured, if_true]
  rw [if_neg (by simpa using nonempty)]

/-- Two fields are read alike. -/
theorem sameInet_fields {host portText : String}
    (fields : splitChar ':' config.transport.inetAddress = [host, portText])
    (enabled : config.transport.enableInet = true) (keys : List String) (os : String → String → Option Nat) :
    SameInet config.transport.inetAddress (startup split platform none config keys os) := by
  cases hport : Transport.parseU16 portText with
  | error kind =>
    have parsed : Transport.parse ("inet://" ++ config.transport.inetAddress) = .error "Invalid port number" := by
      simp only [Transport.parse_inet (.inl rfl), Transport.parseInet, fields, hport]
    have determined : determineTransports platform none config.transport = .error (toString kind) := by
      simp only [determineTransports, enabled, configuredInet, fields, hport, if_true]
    refine ⟨fun t accepted => ?_, fun _ _ => ⟨_, startup_error split platform config determined keys os⟩⟩
    rw [parsed] at accepted
    cases accepted
  | ok port =>
    have parsed : Transport.parse ("inet://" ++ config.transport.inetAddress) = .ok (.inet host port) := by
      simp only [Transport.parse_inet (.inl rfl), Transport.parseInet, fields, hport]
    have configured : configuredInet config.transport.inetAddress = .ok [.inet host port] := by
      simp only [configuredInet, fields, hport]
    have determined := determineTransports_inet platform config enabled configured (by simp)
    obtain ⟨d, comesUp⟩ := startup_ok split platform config determined keys os
    refine ⟨fun t accepted => ?_, fun e rejected => ?_⟩
    · rw [parsed] at accepted
      cases accepted
      exact ⟨host, port, _, d, rfl, comesUp, by simp⟩
    · rw [parsed] at rejected
      cases rejected

/-- Any other address is rejected the one way and passed over the other. -/
theorem sameInet_unsplit (unsplit : (splitChar ':' config.transport.inetAddress).length ≠ 2)
    (enabled : config.transport.enableInet = true) (keys : List String) (os : String → String → Option Nat) :
    SameInet config.transport.inetAddress (startup split platform none config keys os) ↔
      configuredUnix platform config.transport = [] ∧ configuredVsock platform config.transport = [] := by
  have parsed : Transport.parse ("inet://" ++ config.transport.inetAddress) =
      .error "Invalid inet address format. Expected host:port" := by
    rw [Transport.parse_inet (.inl rfl), Transport.parseInet]
    split
    · rename_i fields
      exact absurd (by rw [fields]; rfl) unsplit
    · rfl
  have passedOver : configuredInet config.transport.inetAddress = .ok [] := by
    rw [configuredInet]
    split
    · rename_i fields
      exact absurd (by rw [fields]; rfl) unsplit
    · rfl
  by_cases alone : configuredUnix platform config.transport = [] ∧ configuredVsock platform config.transport = []
  · have determined : determineTransports platform none config.transport =
        .error "At least one transport must be enabled" := by
      simp [determineTransports, enabled, passedOver, alone.1, alone.2]
    refine iff_of_true
      ⟨fun t accepted => ?_, fun _ _ => ⟨_, startup_error split platform config determined keys os⟩⟩ alone
    rw [parsed] at accepted
    cases accepted
  · -- the daemon comes up, without an inet transport
    refine iff_of_false (fun same => ?_) alone
    have determined := determineTransports_inet platform config enabled passedOver (by simpa using alone)
    obtain ⟨d, comesUp⟩ := startup_ok split platform config determined keys os
    obtain ⟨e, fails⟩ := same.rejected _ parsed
    rw [comesUp] at fails
    cases fails

end

theorem configuredUnix_eq_nil {platform : Platform} {config : TransportConfig} :
    configuredUnix platform config = [] ↔ ¬ (config.enableUnix = true ∧ platform.unix = true) := by
  simp [configuredUnix]

theorem configuredVsock_eq_nil {platform : Platform} {config : TransportConfig} :
    configuredVsock platform config = [] ↔ ¬ (config.enableVsock = true ∧ platform.linux = true) := by
  simp [configuredVsock]

/-- Both ways of naming the inet transport agree exactly on the addresses of two fields, and
    where no other transport is enabled on the platform. -/
theorem sameInet_iff (split : String → Option (List String)) (platform : Platform) (config : GlobalConfig)
    (address : String) (keys : List String) (os : String → String → Option Nat) :
    SameInet address (startup split platform none
        { config with transport := { config.transport with enableInet := true, inetAddress := address } }
        keys os) ↔
      (splitChar ':' address).length = 2 ∨
        ¬ (config.transport.enableUnix = true ∧ platform.unix = true) ∧
        ¬ (config.transport.enableVsock = true ∧ platform.linux = true) := by
  rw [← configuredUnix_eq_nil, ← configuredVsock_eq_nil]
  let configured : GlobalConfig :=
    { config with transport := { config.transport with enableInet := true, inetAddress := address } }
  by_cases two : (splitChar ':' address).length = 2
  · obtain ⟨host, portText, fields⟩ := List.length_eq_two.mp two
    exact iff_of_true (sameInet_fields split platform configured fields rfl keys os) (.inl two)
  · rw [or_iff_right two]
    exact sameInet_unsplit split platform configured two rfl keys os

/-- The address has more than one colon, and the daemon comes up without it. -/
theorem inet_passed_over :
    Transport.parse ("inet://" ++ "[::1]:50051") = .error "Invalid inet address format. Expected host:port" ∧
    (∃ d, startup (fun command => some [command]) {} none
        { transport := { enableInet := true, inetAddress := "[::1]:50051" }, program := [] } []
        (fun _ _ => none) = some (.ok ([.unix "/tmp/cirond.sock"], d))) ∧
    ¬ SameInet "[::1]:50051" (startup (fun command => some [command]) {} none
        { transport := { enableInet := true, inetAddress := "[::1]:50051" }, program := [] } []
        (fun _ _ => none)) := by
  have parsed : Transport.parse ("inet://" ++ "[::1]:50051") =
      .error "Invalid inet address format. Expected host:port" := by decide
  have comesUp : ∃ d, startup (fun command => some [command]) {} none
      { transport := { enableInet := true, inetAddress := "[::1]:50051" }, program := [] } []
      (fun _ _ => none) = some (.ok ([.unix "/tmp/cirond.sock"], d)) := ⟨_, rfl⟩
  refine ⟨parsed, comesUp, fun same => ?_⟩
  obtain ⟨d, comesUp⟩ := comesUp
  obtain ⟨e, fails⟩ := same.rejected _ parsed
  rw [comesUp] at fails
  cases fails

/-! ## The transports that are served -/

theorem configuredInet_plain {address : String} {transports : List Transport}
    (configured : configuredInet address = .ok transports) : ∀ t ∈ transports, t.Plain := by
  rw [configuredInet] at configured
  split at configured
  · rename_i host portText fields
    split at configured
    · cases configured
    · cases configured
      exact List.forall_mem_singleton.mpr (splitChar_eq_pair.mp fields).1
  · cases configured
    exact nofun

/-- The transports from the configuration have no host with a colon either. -/
theorem determineTransports_plain {platform : Platform} {cli : Option String} {config : TransportConfig}
    {transports : List Transport} (determined : determineTransports platform cli config = .ok transports) :
    transports ≠ [] ∧ ∀ t ∈ transports, t.Plain := by
  cases cli with
  | some address =>
    cases parsed : Transport.parse address with
    | error e =>
      rw [determineTransports, parsed] at determined
      cases determined
    | ok t =>
      rw [determineTransports, parsed] at determined
      cases determined
      exact ⟨List.cons_ne_nil _ _, List.forall_mem_singleton.mpr (Transport.parse_eq_ok.mp parsed).plain⟩
  | none =>
    simp only [determineTransports] at determined
    split at determined
    · cases determined
    · rename_i fromInet inet
      have hosts : ∀ t ∈ fromInet, t.Plain := by
        split at inet
        · exact configuredInet_plain inet
        · cases inet
          exact nofun
      split at determined
      · cases determined
      · rename_i some'
        cases determined
        refine ⟨by simpa using some', fun t member => ?_⟩
        rw [List.mem_append, List.mem_append] at member
        rcases member with (unix | inet) | vsock
        · rw [configuredUnix] at unix
          split at unix
          · cases List.mem_singleton.mp unix
            trivial
          · cases unix
        · exact hosts t inet
        · rw [configuredVsock] at vsock
          split at vsock
          · cases List.mem_singleton.mp vsock
            trivial
          · cases vsock

/-- Whatever a daemon that has come up serves, a client can name: the displayed form of each transport, which
    is what its status shows, is read by the client as that transport, and is reported with its
    kind.  A transport from the command line is the only one. -/
theorem startup_transports (split : String → Option (List String)) (platform : Platform) (cli : Option String)
    (config : GlobalConfig) (keys : List String) (os : String → String → Option Nat)
    {transports : List Transport} {d : Daemon}
    (started : startup split platform cli config keys os = some (.ok (transports, d))) :
    transports ≠ [] ∧
    (∀ t ∈ transports, Transport.parse (toString t) = .ok t ∧
      parseTransportInfo (toString t) = { type := t.kind.toInt, address := toString t }) ∧
    ∀ address, cli = some address → ∃ t, transports = [t] ∧ Transport.parse address = .ok t := by
  have determined : determineTransports platform cli config.transport = .ok transports := by
    rw [startup] at started
    split at started
    · cases started
    · rename_i chosen
      obtain ⟨_, _, same⟩ := Option.map_eq_some_iff.mp started
      cases same
      exact chosen
  obtain ⟨nonempty, plain⟩ := determineTransports_plain determined
  refine ⟨nonempty, fun t member => ?_, ?_⟩
  · have displayed := Transport.address_toString (plain t member)
    exact ⟨Transport.parse_eq_ok.mpr displayed, displayed.kind⟩
  · rintro address rfl
    cases parsed : Transport.parse address with
    | error e =>
      rw [determineTransports, parsed] at determined
      cases determined
    | ok t =>
      rw [determineTransports, parsed] at determined
      cases determined
      exact ⟨t, rfl, rfl⟩

theorem startup_transports_three : ∃ d,
    startup (fun command => some [command]) {} none
      { transport := { enableInet := true, enableVsock := true }, program := [] } [] (fun _ _ => none) =
      some (.ok ([.unix "/tmp/cirond.sock", .inet "127.0.0.1" 50051, .vsock 4294967295 50051], d)) ∧
    [.unix "/tmp/cirond.sock", .inet "127.0.0.1" 50051, .vsock 4294967295 50051] ≠ ([] : List Transport) ∧
    (∀ t ∈ [.unix "/tmp/cirond.sock", .inet "127.0.0.1" 50051, .vsock 4294967295 50051],
      Transport.parse (toString t) = .ok t ∧
      parseTransportInfo (toString t) = { type := t.kind.toInt, address := toString t }) ∧
    ∀ address, none = some address → ∃ t : Transport,
      [.unix "/tmp/cirond.sock", .inet "127.0.0.1" 50051, .vsock 4294967295 50051] = [t] ∧
      Transport.parse address = .ok t := by
  have started : ∃ d, startup (fun command => some [command]) {} none
      { transport := { enableInet := true, enableVsock := true }, program := [] } [] (fun _ _ => none) =
      some (.ok ([.unix "/tmp/cirond.sock", .inet "127.0.0.1" 50051, .vsock 4294967295 50051], d)) := ⟨_, rfl⟩
  obtain ⟨d, started⟩ := started
  exact ⟨d, started, startup_transports _ {} none _ [] _ started⟩

end Ciron
