import Ciron.Data.Text

/-! # Transport addresses

`Transport::parse`, its `Display`, and the prefix test that the daemon's status makes on the
displayed form.  `Address` is the grammar of the addresses. -/

namespace Ciron

open Data

/-- The path of a socket is kept as the text it was parsed from. -/
inductive Transport where
  | inet (host : String) (port : UInt16)
  | unix (path : String)
  | vsock (cid port : UInt32)
deriving DecidableEq, Repr

inductive TransportType where
  | unspecified
  | inet
  | unix
  | vsock
deriving DecidableEq, Repr

def TransportType.toInt : TransportType → Int
  | unspecified => 0
  | inet => 1
  | unix => 2
  | vsock => 3

structure TransportInfo where
  type : Int
  address : String
deriving DecidableEq, Repr

namespace Transport

def parseU16 (s : String) : Except IntErrorKind UInt16 :=
  (parseUnsigned UInt16.size s).map UInt16.ofNat

def parseU32 (s : String) : Except IntErrorKind UInt32 :=
  (parseUnsigned UInt32.size s).map UInt32.ofNat

/-- `addr` is what follows `inet://` or `tcp://`. -/
def parseInet (addr : String) : Except String Transport :=
  match splitChar ':' addr with
  | [host, port] =>
    match parseU16 port with
    | .error _ => .error "Invalid port number"
    | .ok port => .ok (.inet host port)
  | _ => .error "Invalid inet address format. Expected host:port"

/-- `addr` is what follows `vsock://`. -/
def parseVsock (addr : String) : Except String Transport :=
  match splitChar ':' addr with
  | [cid, port] =>
    match parseU32 cid with
    | .error _ => .error "Invalid CID"
    | .ok cid =>
      match parseU32 port with
      | .error _ => .error "Invalid port"
      | .ok port => .ok (.vsock cid port)
  | _ => .error "Invalid vsock address format. Expected cid:port"

def parse (s : String) : Except String Transport :=
  match (stripPrefix "inet://" s).or (stripPrefix "tcp://" s) with
  | some addr => parseInet addr
  | none =>
    match stripPrefix "unix://" s with
    | some path => .ok (.unix path)
    | none =>
      match stripPrefix "vsock://" s with
      | some addr => parseVsock addr
      | none => .error "Unknown transport type. Use inet://, unix://, or vsock:// prefix"

instance : ToString Transport where
  toString
    | .inet host port => s!"inet://{host}:{port}"
    | .unix path => s!"unix://{path}"
    | .vsock cid port => s!"vsock://{cid}:{port}"

def kind : Transport → TransportType
  | inet .. => .inet
  | unix .. => .unix
  | vsock .. => .vsock

/-- No colon in the host, so that the displayed form can be taken apart again. -/
def Plain : Transport → Prop
  | inet host _ => ':' ∉ host.toList
  | unix _ | vsock _ _ => True

end Transport

/-- `parse_transport_info` of a service whose transport is displayed as `transport`. -/
def parseTransportInfo (transport : String) : TransportInfo :=
  let kind : TransportType :=
    if startsWith "inet://" transport || startsWith "tcp://" transport then .inet
    else if startsWith "unix://" transport then .unix
    else if startsWith "vsock://" transport then .vsock
    else .unspecified
  { type := kind.toInt, address := transport }

namespace Transport

/-! ## The grammar -/

inductive Address : String → Transport → Prop
  | inet {scheme host portText : String} {port : UInt16} (hscheme : scheme = "inet://" ∨ scheme = "tcp://")
      (hhost : ':' ∉ host.toList) (hport : Decimal UInt16.size portText port.toNat) :
      Address (scheme ++ (host ++ ":" ++ portText)) (.inet host port)
  | unix (path : String) : Address ("unix://" ++ path) (.unix path)
  | vsock {cidText portText : String} {cid port : UInt32} (hcid : Decimal UInt32.size cidText cid.toNat)
      (hport : Decimal UInt32.size portText port.toNat) :
      Address ("vsock://" ++ (cidText ++ ":" ++ portText)) (.vsock cid port)

theorem parseU16_eq_ok {s : String} {n : UInt16} : parseU16 s = .ok n ↔ Decimal UInt16.size s n.toNat := by
  rw [← parseUnsigned_eq_ok (by decide), parseU16]
  cases parsed : parseUnsigned UInt16.size s with
  | error kind => simp [Except.map]
  | ok value =>
    have bound := ((parseUnsigned_eq_ok (by decide)).mp parsed).bound
    simp only [Except.map, Except.ok.injEq, ← UInt16.toNat_inj, UInt16.toNat_ofNat_of_lt' bound]

theorem parseU32_eq_ok {s : String} {n : UInt32} : parseU32 s = .ok n ↔ Decimal UInt32.size s n.toNat := by
  rw [← parseUnsigned_eq_ok (by decide), parseU32]
  cases parsed : parseUnsigned UInt32.size s with
  | error kind => simp [Except.map]
  | ok value =>
    have bound := ((parseUnsigned_eq_ok (by decide)).mp parsed).bound
    simp only [Except.map, Except.ok.injEq, ← UInt32.toNat_inj, UInt32.toNat_ofNat_of_lt' bound]

theorem colon_not_mem {size n : Nat} {s : String} (h : Decimal size s n) : ':' ∉ s.toList :=
  h.not_mem (by decide) (by decide)

theorem parseInet_eq_ok {addr : String} {t : Transport} : parseInet addr = .ok t ↔
    ∃ host portText port, ':' ∉ host.toList ∧ Decimal UInt16.size portText port.toNat ∧
      addr = host ++ ":" ++ portText ∧ t = .inet host port := by
  constructor
  · intro parsed
    rw [parseInet] at parsed
    split at parsed
    · rename_i host portText fields
      obtain ⟨hhost, _, text⟩ := splitChar_eq_pair.mp fields
      split at parsed
      · cases parsed
      · rename_i port hport
        cases parsed
        exact ⟨host, portText, port, hhost, parseU16_eq_ok.mp hport, text, rfl⟩
    · cases parsed
  · rintro ⟨host, portText, port, hhost, hport, text, rfl⟩
    have fields : splitChar ':' addr = [host, portText] :=
      splitChar_eq_pair.mpr ⟨hhost, colon_not_mem hport, text⟩
    simp only [parseInet, fields, parseU16_eq_ok.mpr hport]

theorem parseVsock_eq_ok {addr : String} {t : Transport} : parseVsock addr = .ok t ↔
    ∃ cidText portText cid port, Decimal UInt32.size cidText cid.toNat ∧
      Decimal UInt32.size portText port.toNat ∧ addr = cidText ++ ":" ++ portText ∧ t = .vsock cid port := by
  constructor
  · intro parsed
    rw [parseVsock] at parsed
    split at parsed
    · rename_i cidText portText fields
      obtain ⟨_, _, text⟩ := splitChar_eq_pair.mp fields
      split at parsed
      · cases parsed
      · rename_i cid hcid
        split at parsed
        · cases parsed
        · rename_i port hport
          cases parsed
          exact ⟨cidText, portText, cid, port, parseU32_eq_ok.mp hcid, parseU32_eq_ok.mp hport, text, rfl⟩
    · cases parsed
  · rintro ⟨cidText, portText, cid, port, hcid, hport, text, rfl⟩
    have fields : splitChar ':' addr = [cidText, portText] :=
      splitChar_eq_pair.mpr ⟨colon_not_mem hcid, colon_not_mem hport, text⟩
    simp only [parseVsock, fields, parseU32_eq_ok.mpr hcid, parseU32_eq_ok.mpr hport]

theorem parse_inet {scheme : String} (hscheme : scheme = "inet://" ∨ scheme = "tcp://") (addr : String) :
    parse (scheme ++ addr) = parseInet addr := by
  cases hscheme with
  | inl inet =>
    subst inet
    simp only [parse, stripPrefix_self, Option.some_or]
  | inr tcp =>
    subst tcp
    simp only [parse, stripPrefix_other "inet://" "tcp://" _ (by decide), stripPrefix_self, Option.none_or]

theorem parse_unix (path : String) : parse ("unix://" ++ path) = .ok (.unix path) := by
  simp only [parse, stripPrefix_other "inet://" "unix://" _ (by decide),
    stripPrefix_other "tcp://" "unix://" _ (by decide), stripPrefix_self, Option.none_or]

theorem parse_vsock (addr : String) : parse ("vsock://" ++ addr) = parseVsock addr := by
  simp only [parse, stripPrefix_other "inet://" "vsock://" _ (by decide),
    stripPrefix_other "tcp://" "vsock://" _ (by decide),
    stripPrefix_other "unix://" "vsock://" _ (by decide), stripPrefix_self, Option.none_or]

theorem parse_eq_ok {s : String} {t : Transport} : parse s = .ok t ↔ Address s t := by
  constructor
  · intro parsed
    rw [parse] at parsed
    split at parsed
    · rename_i addr stripped
      obtain ⟨host, portText, port, hhost, hport, rfl, rfl⟩ := parseInet_eq_ok.mp parsed
      cases inet : stripPrefix "inet://" s with
      | some rest =>
        rw [inet, Option.some_or, Option.some.injEq] at stripped
        rw [stripPrefix_eq_some.mp inet, stripped]
        exact .inet (.inl rfl) hhost hport
      | none =>
        rw [inet, Option.none_or] at stripped
        rw [stripPrefix_eq_some.mp stripped]
        exact .inet (.inr rfl) hhost hport
    · split at parsed
      · rename_i path stripped
        cases parsed
        rw [stripPrefix_eq_some.mp stripped]
        exact .unix path
      · split at parsed
        · rename_i addr stripped
          obtain ⟨cidText, portText, cid, port, hcid, hport, rfl, rfl⟩ := parseVsock_eq_ok.mp parsed
          rw [stripPrefix_eq_some.mp stripped]
          exact .vsock hcid hport
        · cases parsed
  · intro address
    cases address with
    | @inet scheme host portText port hscheme hhost hport =>
      rw [parse_inet hscheme]
      exact parseInet_eq_ok.mpr ⟨host, portText, port, hhost, hport, rfl, rfl⟩
    | unix path => exact parse_unix path
    | @vsock cidText portText cid port hcid hport =>
      rw [parse_vsock]
      exact parseVsock_eq_ok.mpr ⟨cidText, portText, cid, port, hcid, hport, rfl, rfl⟩

/-! ## The displayed form -/

theorem address_toString {t : Transport} (plain : t.Plain) : Address (toString t) t := by
  cases t with
  | inet host port =>
    have form : toString (inet host port) = "inet://" ++ (host ++ ":" ++ toString port.toNat) := by
      simp only [← String.append_assoc]
      rfl
    rw [form]
    exact .inet (.inl rfl) plain (decimal_toString port.toNat_lt_size)
  | unix path => exact .unix path
  | vsock cid port =>
    have form : toString (vsock cid port) =
        "vsock://" ++ (toString cid.toNat ++ ":" ++ toString port.toNat) := by
      simp only [← String.append_assoc]
      rfl
    rw [form]
    exact .vsock (decimal_toString cid.toNat_lt_size) (decimal_toString port.toNat_lt_size)

theorem Address.plain {s : String} {t : Transport} (address : Address s t) : t.Plain := by
  cases address with
  | inet _ hhost _ => exact hhost
  | unix | vsock => trivial

/-- The prefix test agrees with the parser. -/
theorem Address.kind {s : String} {t : Transport} (address : Address s t) :
    parseTransportInfo s = { type := t.kind.toInt, address := s } := by
  cases address with
  | inet hscheme =>
    rcases hscheme with rfl | rfl
    · simp [parseTransportInfo, startsWith_eq, stripPrefix_self, Transport.kind]
    · simp [parseTransportInfo, startsWith_eq, stripPrefix_self, Transport.kind]
  | unix path =>
    simp [parseTransportInfo, startsWith_eq, stripPrefix_self,
      stripPrefix_other "inet://" "unix://" _ (by decide),
      stripPrefix_other "tcp://" "unix://" _ (by decide), Transport.kind]
  | vsock =>
    simp [parseTransportInfo, startsWith_eq, stripPrefix_self,
      stripPrefix_other "inet://" "vsock://" _ (by decide),
      stripPrefix_other "tcp://" "vsock://" _ (by decide),
      stripPrefix_other "unix://" "vsock://" _ (by decide), Transport.kind]

/-- A transport whose host has no colon is parsed back from its displayed form; the parser
    accepts the addresses of the grammar, with their parts; and what it accepted is displayed
    in a form that parses to the same transport and has the prefix of its kind. -/
theorem parse_toString :
    (∀ t : Transport, t.Plain → parse (toString t) = .ok t) ∧
    (∀ s t, parse s = .ok t ↔ Address s t) ∧
    ∀ s t, parse s = .ok t → parse (toString t) = .ok t ∧
      parseTransportInfo (toString t) = { type := t.kind.toInt, address := toString t } := by
  refine ⟨fun t plain => parse_eq_ok.mpr (address_toString plain), fun _ _ => parse_eq_ok, ?_⟩
  intro s t parsed
  have displayed := address_toString (parse_eq_ok.mp parsed).plain
  exact ⟨parse_eq_ok.mpr displayed, displayed.kind⟩

end Transport

end Ciron
