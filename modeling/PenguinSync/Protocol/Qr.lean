import PenguinSync.Lib.Urlencoded
import PenguinSync.Protocol.Addr

/-!
# The pairing URI

The URI carries the payload as a form-urlencoded query. The URL parser is a
parameter; what is assumed of it is that it takes a pairing URI apart at the
question mark and leaves a query of plain characters as it is. A field that is
given again replaces the earlier one, except addresses, which add up.
-/

namespace PenguinSync

/-! ## Lossy UTF-8 -/

/-- By its first byte: how many bytes a character goes on for, and the range of the next. -/
def utf8Lead (b : UInt8) : Option (Nat × UInt8 × UInt8) :=
  if b ≤ 0x7f then some (0, 0x80, 0xbf)
  else if 0xc2 ≤ b ∧ b ≤ 0xdf then some (1, 0x80, 0xbf)
  else if b = 0xe0 then some (2, 0xa0, 0xbf)
  else if b = 0xed then some (2, 0x80, 0x9f)
  else if 0xe1 ≤ b ∧ b ≤ 0xef then some (2, 0x80, 0xbf)
  else if b = 0xf0 then some (3, 0x90, 0xbf)
  else if 0xf1 ≤ b ∧ b ≤ 0xf3 then some (3, 0x80, 0xbf)
  else if b = 0xf4 then some (3, 0x80, 0x8f)
  else none

def utf8Next : Nat → UInt8 → UInt8 → List UInt8 → List UInt8
  | n + 1, lo, hi, b :: l => if lo ≤ b ∧ b ≤ hi then b :: utf8Next n 0x80 0xbf l else []
  | _, _, _, _ => []

def codePoint (n : Nat) (b : UInt8) (next : List UInt8) : Nat :=
  next.foldl (fun c x => 64 * c + x.toNat % 64) (if n = 0 then b.toNat else b.toNat % 2 ^ (6 - n))

/-- A sequence that stops short is one replacement character; `skip` bytes belong to
the character before. -/
def utf8Chunks : (skip : Nat) → List UInt8 → List Char
  | _, [] => []
  | skip + 1, _ :: l => utf8Chunks skip l
  | 0, b :: l =>
    match utf8Lead b with
    | none => '\uFFFD' :: utf8Chunks 0 l
    | some (n, lo, hi) =>
      let next := utf8Next n lo hi l
      (if next.length = n then Char.ofNat (codePoint n b next) else '\uFFFD') :: utf8Chunks next.length l

/-- `String::from_utf8_lossy`, which borrows a valid text. -/
def fromUtf8Lossy (l : List UInt8) : String :=
  match fromUtf8 l with
  | some s => s
  | none => String.ofList (utf8Chunks 0 l)

theorem fromUtf8Lossy_utf8 (s : String) : fromUtf8Lossy (utf8 s) = s := by
  unfold fromUtf8Lossy
  rw [fromUtf8_utf8]

/-! ## URLs -/

/-- `base` is what is written before the query. -/
structure Url where
  scheme : String
  base : String
  query : Option String

def asciiText (l : List UInt8) : String := String.ofList (l.map fun b => Char.ofNat b.toNat)

def serializePairs (ps : List (String × String)) : String :=
  asciiText (Urlencoded.serialize (ps.map fun p => (utf8 p.1, utf8 p.2)))

def Url.appendPairs (u : Url) (ps : List (String × String)) : Url :=
  { u with query := some (match u.query with
    | none => serializePairs ps
    | some q => if q.isEmpty then serializePairs ps else q ++ "&" ++ serializePairs ps) }

def Url.text (u : Url) : String :=
  match u.query with
  | none => u.base
  | some q => u.base ++ "?" ++ q

def Url.queryPairs (u : Url) : List (String × String) :=
  (Urlencoded.parse (utf8 (u.query.getD ""))).map fun p => (fromUtf8Lossy p.1, fromUtf8Lossy p.2)

def scheme : String := "penguinsync"

/-- `Url::parse` on pairing URIs: the scheme is ours, the host has no escapes, and
the bytes of a serialized query are none that a query escapes. -/
structure UrlStandard (parse : String → Option Url) : Prop where
  pair : parse (scheme ++ "://pair") = some ⟨scheme, scheme ++ "://pair", none⟩
  query : ∀ l : List UInt8, (∀ b ∈ l, Urlencoded.safe b = true) →
    parse (scheme ++ "://pair" ++ "?" ++ asciiText l) = some ⟨scheme, scheme ++ "://pair", some (asciiText l)⟩

/-! ## Encoding -/

def qrPairs (payload : QrPayload) : List (String × String) :=
  [("v", toString payload.version.toNat), ("id", toHex payload.deviceId), ("name", payload.name)] ++
    payload.addrs.map (fun addr => ("addr", String.ofList addr.toText)) ++ [("token", hexEncode payload.token.1)]

/-- `none` where the `expect` on the static URL panics. -/
def encodeQrUri (parse : String → Option Url) (payload : QrPayload) : Option String :=
  (parse (scheme ++ "://pair")).map fun url => (url.appendPairs (qrPairs payload)).text

/-! ## Decoding -/

inductive QrParseError where
  | wrongScheme
  | missingField (field : String)
  | malformedField (field : String)
  deriving DecidableEq

structure QrFields where
  version : Option UInt16
  deviceId : Option DeviceId
  name : Option String
  addrs : List SocketAddr
  token : Option TokenBytes

def QrFields.empty : QrFields := ⟨none, none, none, [], none⟩

def orMalformed {α : Type} (field : String) : Option α → Except QrParseError α
  | some a => .ok a
  | none => .error (.malformedField field)

def orMissing {α : Type} (field : String) : Option α → Except QrParseError α
  | some a => .ok a
  | none => .error (.missingField field)

def parseU16 (s : String) : Option UInt16 := (Text.parseNat (2 ^ 16) s.toList).map UInt16.ofNat

def hexDecodeToken (s : String) : Option TokenBytes := hexDecode tokenLen s

def QrFields.pair (f : QrFields) (p : String × String) : Except QrParseError QrFields :=
  if p.1 = "v" then do
    let version ← orMalformed "v" (parseU16 p.2)
    return { f with version := some version }
  else if p.1 = "id" then do
    let deviceId ← orMalformed "id" (fromHex p.2)
    return { f with deviceId := some deviceId }
  else if p.1 = "name" then return { f with name := some p.2 }
  else if p.1 = "addr" then do
    let addr ← orMalformed "addr" (SocketAddr.fromText p.2.toList)
    return { f with addrs := f.addrs ++ [addr] }
  else if p.1 = "token" then do
    let token ← orMalformed "token" (hexDecodeToken p.2)
    return { f with token := some token }
  else return f

def QrFields.payload (f : QrFields) : Except QrParseError QrPayload := do
  let version ← orMissing "v" f.version
  let deviceId ← orMissing "id" f.deviceId
  let name ← orMissing "name" f.name
  let token ← orMissing "token" f.token
  return ⟨version, deviceId, name, f.addrs, token⟩

def decodeQrUri (parse : String → Option Url) (uri : String) : Except QrParseError QrPayload :=
  match parse uri with
  | none => .error .wrongScheme
  | some url =>
    if url.scheme ≠ scheme then .error .wrongScheme
    else do
      let fields ← url.queryPairs.foldlM QrFields.pair .empty
      fields.payload

/-! ## The query carries the pairs -/

theorem utf8_asciiText {l : List UInt8} (h : ∀ b ∈ l, b < 128) : utf8 (asciiText l) = l := by
  have hbyte : ∀ n < 128, String.utf8EncodeChar (Char.ofNat n) = [UInt8.ofNat n] := by decide
  unfold asciiText
  rw [utf8_ofList]
  induction l with
  | nil => rfl
  | cons b l ih =>
    have hb : b < 128 := h b List.mem_cons_self
    rw [List.map_cons, List.flatMap_cons, ih fun a ha => h a (List.mem_cons_of_mem _ ha),
      hbyte b.toNat (UInt8.lt_iff_toNat_lt.mp hb), UInt8.ofNat_toNat]
    rfl

theorem utf8_serializePairs (ps : List (String × String)) :
    utf8 (serializePairs ps) = Urlencoded.serialize (ps.map fun p => (utf8 p.1, utf8 p.2)) :=
  utf8_asciiText fun _ hb => Urlencoded.safe_ascii (Urlencoded.safe_serialize hb)

theorem queryPairs_serialize {u : Url} {ps : List (String × String)} (h : u.query = some (serializePairs ps)) :
    u.queryPairs = ps := by
  have hid : ((fun p : List UInt8 × List UInt8 => (fromUtf8Lossy p.1, fromUtf8Lossy p.2)) ∘
      fun p : String × String => (utf8 p.1, utf8 p.2)) = id := by
    funext p
    simp [fromUtf8Lossy_utf8]
  unfold Url.queryPairs
  rw [h, Option.getD_some, utf8_serializePairs, Urlencoded.parse_serialize, List.map_map, hid, List.map_id]

/-! ## The loop -/

theorem parseU16_toString (v : UInt16) : parseU16 (toString v.toNat) = some v := by
  unfold parseU16
  have htext : (toString v.toNat).toList = Nat.toDigits 10 v.toNat := by
    rw [Nat.toString_eq_ofList_toDigits, String.toList_ofList]
  rw [htext, Text.parseNat_toDigits v.toNat_lt, Option.map_some, UInt16.ofNat_toNat]

theorem hexDecodeToken_encode (t : TokenBytes) : hexDecodeToken (hexEncode t.1) = some t := hexDecode_encode t

theorem pair_cons {f f' : QrFields} {p : String × String} (h : f.pair p = .ok f') (ps : List (String × String)) :
    (p :: ps).foldlM QrFields.pair f = ps.foldlM QrFields.pair f' := by
  rw [List.foldlM_cons, h]
  rfl

theorem pair_addrs {addrs : List SocketAddr} (h : ∀ addr ∈ addrs, addr.flowinfo = 0) (f : QrFields) :
    (addrs.map fun addr => ("addr", String.ofList addr.toText)).foldlM QrFields.pair f =
      .ok { f with addrs := f.addrs ++ addrs } := by
  induction addrs generalizing f with
  | nil =>
    rw [List.append_nil]
    rfl
  | cons addr addrs ih =>
    have hread : SocketAddr.fromText addr.toText = some addr :=
      SocketAddr.fromText_toText (h addr List.mem_cons_self)
    have hpair : QrFields.pair f ("addr", String.ofList addr.toText) =
        .ok { f with addrs := f.addrs ++ [addr] } := by
      simp [QrFields.pair, hread, orMalformed]
    rw [List.map_cons, pair_cons hpair, ih fun a ha => h a (List.mem_cons_of_mem _ ha), List.append_assoc]
    rfl

theorem pair_qrPairs {payload : QrPayload} (h : ∀ addr ∈ payload.addrs, addr.flowinfo = 0) :
    (qrPairs payload).foldlM QrFields.pair .empty =
      .ok ⟨some payload.version, some payload.deviceId, some payload.name, payload.addrs, some payload.token⟩ := by
  have hv (f : QrFields) : f.pair ("v", toString payload.version.toNat) =
      .ok { f with version := some payload.version } := by
    simp only [QrFields.pair, if_true, parseU16_toString]
    rfl
  have hid (f : QrFields) : f.pair ("id", toHex payload.deviceId) =
      .ok { f with deviceId := some payload.deviceId } := by
    simp [QrFields.pair, fromHex_toHex, orMalformed]
  have hname (f : QrFields) : f.pair ("name", payload.name) = .ok { f with name := some payload.name } := by
    simp only [QrFields.pair, if_true]
    rfl
  have htoken (f : QrFields) : f.pair ("token", hexEncode payload.token.1) =
      .ok { f with token := some payload.token } := by
    simp [QrFields.pair, hexDecodeToken_encode, orMalformed]
  unfold qrPairs
  rw [List.append_assoc, List.cons_append, List.cons_append, List.cons_append, List.nil_append, pair_cons (hv _),
    pair_cons (hid _), pair_cons (hname _), List.foldlM_append, pair_addrs h]
  exact pair_cons (htoken _) []

theorem bind_ok {α β : Type} {x : Except QrParseError α} {k : α → Except QrParseError β} {b : β}
    (h : (x >>= k) = .ok b) : ∃ a, x = .ok a ∧ k a = .ok b := by
  cases x with
  | error e => cases h
  | ok a => exact ⟨a, rfl, h⟩

theorem orMalformed_ok {α : Type} {field : String} {o : Option α} {a : α} (h : orMalformed field o = .ok a) :
    o = some a := by
  cases o with
  | none => cases h
  | some b => rw [Except.ok.inj h]

/-- No pair brings in an address with a flow label. -/
theorem pair_flowinfo {f f' : QrFields} {p : String × String} (h : f.pair p = .ok f')
    (hf : ∀ addr ∈ f.addrs, addr.flowinfo = 0) : ∀ addr ∈ f'.addrs, addr.flowinfo = 0 := by
  unfold QrFields.pair at h
  by_cases haddr : p.1 = "addr"
  · rw [haddr] at h
    obtain ⟨addr, hread, hk⟩ := bind_ok h
    obtain rfl := Except.ok.inj hk
    intro a ha
    rcases List.mem_append.mp ha with ha | ha
    · exact hf a ha
    · rw [List.mem_singleton.mp ha]
      exact SocketAddr.fromText_flowinfo (orMalformed_ok hread)
  · have hkeep : f'.addrs = f.addrs := by
      rw [if_neg haddr] at h
      repeat' split at h
      · obtain ⟨_, -, hk⟩ := bind_ok h
        rw [← Except.ok.inj hk]
      · obtain ⟨_, -, hk⟩ := bind_ok h
        rw [← Except.ok.inj hk]
      · rw [← Except.ok.inj h]
      · obtain ⟨_, -, hk⟩ := bind_ok h
        rw [← Except.ok.inj hk]
      · rw [← Except.ok.inj h]
    rw [hkeep]
    exact hf

theorem pairs_flowinfo : ∀ {ps : List (String × String)} {f f' : QrFields}, ps.foldlM QrFields.pair f = .ok f' →
    (∀ addr ∈ f.addrs, addr.flowinfo = 0) → ∀ addr ∈ f'.addrs, addr.flowinfo = 0
  | [], f, f', h, hf => by
    obtain rfl := Except.ok.inj h
    exact hf
  | p :: ps, f, f', h, hf => by
    cases hp : f.pair p with
    | error e =>
      rw [List.foldlM_cons, hp] at h
      cases h
    | ok f₁ =>
      rw [pair_cons hp] at h
      exact pairs_flowinfo h (pair_flowinfo hp hf)

theorem payload_addrs {f : QrFields} {payload : QrPayload} (h : f.payload = .ok payload) :
    payload.addrs = f.addrs := by
  obtain ⟨_, -, h⟩ := bind_ok h
  obtain ⟨_, -, h⟩ := bind_ok h
  obtain ⟨_, -, h⟩ := bind_ok h
  obtain ⟨_, -, h⟩ := bind_ok h
  rw [← Except.ok.inj h]

theorem decodeQrUri_flowinfo {parse : String → Option Url} {uri : String} {payload : QrPayload}
    (h : decodeQrUri parse uri = .ok payload) : ∀ addr ∈ payload.addrs, addr.flowinfo = 0 := by
  unfold decodeQrUri at h
  cases hp : parse uri with
  | none =>
    rw [hp] at h
    cases h
  | some url =>
    simp only [hp] at h
    split at h
    · cases h
    · obtain ⟨f, hf, hpay⟩ := bind_ok h
      rw [payload_addrs hpay]
      exact pairs_flowinfo hf fun _ ha => absurd ha List.not_mem_nil

/-! ## Candidate addresses -/

inductive IpAddr where
  | v4 (ip : Bytes 4)
  | v6 (ip : Bytes 16)
  deriving DecidableEq

def SocketAddr.ip : SocketAddr → IpAddr
  | .v4 ip _ => .v4 ip
  | .v6 ip _ _ _ => .v6 ip

def SocketAddr.port : SocketAddr → UInt16
  | .v4 _ port => port
  | .v6 _ port _ _ => port

def SocketAddr.new (ip : IpAddr) (port : UInt16) : SocketAddr :=
  match ip with
  | .v4 ip => .v4 ip port
  | .v6 ip => .v6 ip port 0 0

def IpAddr.isUnspecified (ip : IpAddr) : Bool := ip = .v4 (.fill 4 0) ∨ ip = .v6 (.fill 16 0)

/-- `outbound` is what `guess_outbound_ip` finds. -/
def candidateAddrs (outbound : Option IpAddr) (listenAddr : SocketAddr) : List SocketAddr :=
  if ¬ listenAddr.ip.isUnspecified then [listenAddr]
  else (outbound.map fun ip => SocketAddr.new ip listenAddr.port).toList ++
    [SocketAddr.new (.v4 ⟨[127, 0, 0, 1], rfl⟩) listenAddr.port]

theorem flowinfo_new (ip : IpAddr) (port : UInt16) : (SocketAddr.new ip port).flowinfo = 0 := by
  cases ip with
  | v4 ip => rfl
  | v6 ip => rfl

theorem candidateAddrs_flowinfo {listenAddr : SocketAddr} (h : listenAddr.flowinfo = 0) (outbound : Option IpAddr) :
    ∀ addr ∈ candidateAddrs outbound listenAddr, addr.flowinfo = 0 := by
  intro addr ha
  unfold candidateAddrs at ha
  split at ha
  · rw [List.mem_singleton.mp ha]
    exact h
  · rcases List.mem_append.mp ha with ha | ha
    · obtain ⟨ip, -, rfl⟩ := Option.map_eq_some_iff.mp (Option.mem_toList.mp ha)
      exact flowinfo_new ip _
    · rw [List.mem_singleton.mp ha]
      exact flowinfo_new _ _

/-! ## The round trip -/

def RoundTrips (parse : String → Option Url) (payload : QrPayload) : Prop :=
  ∃ uri, encodeQrUri parse payload = some uri ∧ decodeQrUri parse uri = .ok payload

theorem encodeQrUri_eq {parse : String → Option Url} (hu : UrlStandard parse) (payload : QrPayload) :
    encodeQrUri parse payload = some (scheme ++ "://pair" ++ "?" ++ serializePairs (qrPairs payload)) := by
  unfold encodeQrUri
  rw [hu.pair]
  rfl

theorem decodeQrUri_encode {parse : String → Option Url} (hu : UrlStandard parse) {payload : QrPayload}
    (h : ∀ addr ∈ payload.addrs, addr.flowinfo = 0) : RoundTrips parse payload := by
  have hparse : parse (scheme ++ "://pair" ++ "?" ++ serializePairs (qrPairs payload)) =
      some ⟨scheme, scheme ++ "://pair", some (serializePairs (qrPairs payload))⟩ :=
    hu.query _ fun _ hb => Urlencoded.safe_serialize hb
  have hpairs : Url.queryPairs ⟨scheme, scheme ++ "://pair", some (serializePairs (qrPairs payload))⟩ =
      qrPairs payload := queryPairs_serialize rfl
  refine ⟨_, encodeQrUri_eq hu payload, ?_⟩
  unfold decodeQrUri
  simp only [hparse, ne_eq, not_true_eq_false, if_false, hpairs, pair_qrPairs h]
  rfl

/-- What the daemon offers reads back as it was offered. -/
theorem candidateAddrs_roundTrips {parse : String → Option Url} (hu : UrlStandard parse) {payload : QrPayload}
    {listenAddr : SocketAddr} (h : listenAddr.flowinfo = 0) {outbound : Option IpAddr}
    (ha : payload.addrs = candidateAddrs outbound listenAddr) : RoundTrips parse payload := by
  apply decodeQrUri_encode hu
  rw [ha]
  exact candidateAddrs_flowinfo h outbound

theorem qr_round_trips {parse : String → Option Url} (hu : UrlStandard parse) :
    (∀ payload : QrPayload, (∀ addr ∈ payload.addrs, addr.flowinfo = 0) → RoundTrips parse payload) ∧
    ∀ uri payload, decodeQrUri parse uri = .ok payload → RoundTrips parse payload :=
  ⟨fun _ h => decodeQrUri_encode hu h, fun _ _ h => decodeQrUri_encode hu (decodeQrUri_flowinfo h)⟩

/-- A parser of pairing URIs alone. -/
def parsePairing (s : String) : Option Url :=
  let base := (scheme ++ "://pair").toList
  if s.toList.take base.length = base then
    match s.toList.drop base.length with
    | [] => some ⟨scheme, scheme ++ "://pair", none⟩
    | '?' :: q => some ⟨scheme, scheme ++ "://pair", some (String.ofList q)⟩
    | _ => none
  else none

theorem parsePairing_standard : UrlStandard parsePairing where
  pair := by
    unfold parsePairing
    simp only [List.take_length, List.drop_length, if_true]
  query l _ := by
    have htext : (scheme ++ "://pair" ++ "?" ++ asciiText l).toList =
        (scheme ++ "://pair").toList ++ '?' :: (asciiText l).toList := by
      simp [String.toList_append]
    unfold parsePairing
    simp only [htext, List.take_left, List.drop_left, if_true, String.ofList_toList]

def unusualPayload : QrPayload where
  version := 65535
  deviceId := .fill 32 0xc3
  name := "büro & #1 = 100%+\n 🐧"
  addrs := [.v6 (concat [0xfe80] [1, 0, 0, 0x1a]) 58210 0 3, .v4 ⟨[192, 168, 1, 42], rfl⟩ 5555,
    .v6 (concat [] [0xffff, 0x102, 0xfffe]) 0 0 0]
  token := .fill tokenLen 0xab

theorem qr_round_trips_unusual : RoundTrips parsePairing unusualPayload ∧
    ∃ uri, decodeQrUri parsePairing uri = .ok unusualPayload ∧ RoundTrips parsePairing unusualPayload := by
  have h := qr_round_trips parsePairing_standard
  have hround : RoundTrips parsePairing unusualPayload := h.1 unusualPayload (by decide)
  obtain ⟨uri, -, hdec⟩ := id hround
  exact ⟨hround, uri, hdec, h.2 uri unusualPayload hdec⟩

end PenguinSync
