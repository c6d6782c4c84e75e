import KnockKnock.Outcome
import KnockKnock.Support.Utf8
import KnockKnock.Support.Varint

/-!
# The MQTT CONNECT packet

`build_connect` lays out one CONNECT packet.  `ConnectPacket.decode` reads the
CONNECT layout of MQTT 3.1.1 and 5 and is the yardstick: it gives back what was
asked for exactly when the client id fits its 16-bit length.
-/

namespace KnockKnock

open Wire

namespace Mqtt

inductive MqttVersion where
  | v3_1_1
  | v5
deriving DecidableEq, Repr

def MqttVersion.protocolLevel : MqttVersion → UInt8
  | .v3_1_1 => 4
  | .v5 => 5

/-- `TYPE_CONNECT` -/
def typeConnect : UInt8 := 0x10

/-- `MQTT_PROTOCOL_NAME` -/
def mqttProtocolName : Bytes := Utf8.encode "MQTT".toList

/-- `CONNECT_FLAGS_CLEAN_SESSION` -/
def connectFlagsCleanSession : UInt8 := 0x02

/-- `encode_varint`, the loop with its `value` as the argument. -/
def encodeVarint (n : ℕ) : Bytes :=
  let byte := UInt8.ofNat (n &&& 0x7F)
  let value := n >>> 7
  if 0 < value then (byte ||| 0x80) :: encodeVarint value else [byte]
termination_by n
decreasing_by
  have hvalue : 0 < n >>> 7 := by assumption
  rw [Nat.shiftRight_eq_div_pow] at hvalue ⊢
  omega

/-- The length of a byte string `as u16`. -/
def lengthWord (bytes : Bytes) : UInt16 := UInt16.ofNat bytes.length

def buildConnect (clientId : Text) (keepalive : UInt16)
    (version : MqttVersion) : Bytes :=
  let cidBytes := Utf8.encode clientId
  let variableHeader :=
    toBeBytes (lengthWord mqttProtocolName) ++ mqttProtocolName ++
      [version.protocolLevel] ++ [connectFlagsCleanSession] ++
      toBeBytes keepalive ++ (if version = .v5 then [0x00] else [])
  let payload := toBeBytes (lengthWord cidBytes) ++ cidBytes
  let bodyLen := variableHeader.length + payload.length
  typeConnect :: (encodeVarint bodyLen ++ (variableHeader ++ payload))

/-! ## The layout -/

/-- The fields of a CONNECT packet without will, user name and password. -/
structure ConnectPacket where
  protocol : Bytes
  level : UInt8
  flags : UInt8
  keepalive : UInt16
  properties : Bytes
  clientId : Bytes
deriving DecidableEq, Repr

/-- The properties of a version 5 packet; version 3.1.1 has none. -/
def takeProperties (level : UInt8) (bs : Bytes) : Option (Bytes × Bytes) :=
  if level = 5 then do
    let (n, bs) ← Varint.take 4 bs
    takeExact n bs
  else some ([], bs)

/-- The variable header and the payload. -/
def ConnectPacket.decodeBody (bs : Bytes) :
    Option (ConnectPacket × Bytes) := do
  let (protocol, bs) ← takeCounted bs
  let (level, bs) ← takeByte bs
  let (flags, bs) ← takeByte bs
  let (keepalive, bs) ← takeWord bs
  let (properties, bs) ← takeProperties level bs
  let (clientId, bs) ← takeCounted bs
  pure (⟨protocol, level, flags, keepalive, properties, clientId⟩, bs)

/-- A CONNECT packet at the front of `bs`, and what the decoder leaves over, in
the body and behind the packet. -/
def ConnectPacket.decode (bs : Bytes) : Option (ConnectPacket × Bytes) := do
  let (packetType, bs) ← takeByte bs
  if packetType ≠ 0x10 then none
  else
    let (remaining, bs) ← Varint.take 4 bs
    let (body, rest) ← takeExact remaining bs
    let (packet, left) ← ConnectPacket.decodeBody body
    pure (packet, left ++ rest)

/-- The packet that was asked for. -/
def ConnectPacket.requested (clientId : Text) (keepalive : UInt16)
    (version : MqttVersion) : ConnectPacket where
  protocol := Utf8.encode "MQTT".toList
  level := version.protocolLevel
  flags := 0x02
  keepalive := keepalive
  properties := []
  clientId := Utf8.encode clientId

/-! ## What the layout gives back -/

/-- The loop writes the shortest spelling. -/
theorem encodeVarint_eq (n : ℕ) : encodeVarint n = Varint.encode n := by
  fun_induction Varint.encode n with
  | case1 n h =>
      have hand : n &&& 0x7F = n := by
        rw [show (0x7F : ℕ) = 2 ^ 7 - 1 from rfl,
          Nat.and_two_pow_sub_one_eq_mod]
        omega
      have hshift : n >>> 7 = 0 := by
        rw [Nat.shiftRight_eq_div_pow]
        omega
      unfold encodeVarint
      rw [hand, hshift]
      rfl
  | case2 n h ih =>
      have hand : n &&& 0x7F = n % 128 := by
        rw [show (0x7F : ℕ) = 2 ^ 7 - 1 from rfl,
          Nat.and_two_pow_sub_one_eq_mod]
      have hshift : n >>> 7 = n / 128 := by
        rw [Nat.shiftRight_eq_div_pow]
      have hbyte : UInt8.ofNat (n % 128) ||| 0x80 =
          UInt8.ofNat (n % 128 + 128) := by
        apply UInt8.toNat_inj.mp
        rw [UInt8.toNat_or, ofNat_toNat_byte (by omega),
          ofNat_toNat_byte (by omega), Nat.or_comm,
          show (0x80 : UInt8).toNat = 2 ^ 7 * 1 from rfl,
          ← Nat.two_pow_add_eq_or_of_lt (by omega)]
        omega
      unfold encodeVarint
      rw [hand, hshift, if_pos (by omega), hbyte, ih]

/-- A decoded client id is counted by a word. -/
theorem ConnectPacket.length_clientId_lt {bs rest : Bytes}
    {packet : ConnectPacket}
    (h : ConnectPacket.decode bs = some (packet, rest)) :
    packet.clientId.length < 65536 := by
  obtain ⟨⟨packetType, bs₁⟩, -, h⟩ := Option.bind_eq_some_iff.mp h
  dsimp only at h
  split at h
  · cases h
  obtain ⟨⟨remaining, bs₂⟩, -, h⟩ := Option.bind_eq_some_iff.mp h
  obtain ⟨⟨body, rest'⟩, -, h⟩ := Option.bind_eq_some_iff.mp h
  obtain ⟨⟨packet', left⟩, hbody, h⟩ := Option.bind_eq_some_iff.mp h
  obtain ⟨rfl, -⟩ := Prod.mk.inj (Option.some.inj h)
  obtain ⟨⟨protocol, bs₃⟩, -, hbody⟩ := Option.bind_eq_some_iff.mp hbody
  obtain ⟨⟨level, bs₄⟩, -, hbody⟩ := Option.bind_eq_some_iff.mp hbody
  obtain ⟨⟨flags, bs₅⟩, -, hbody⟩ := Option.bind_eq_some_iff.mp hbody
  obtain ⟨⟨keepalive, bs₆⟩, -, hbody⟩ := Option.bind_eq_some_iff.mp hbody
  obtain ⟨⟨properties, bs₇⟩, -, hbody⟩ := Option.bind_eq_some_iff.mp hbody
  obtain ⟨⟨clientId, bs₈⟩, hclientId, hbody⟩ :=
    Option.bind_eq_some_iff.mp hbody
  obtain ⟨rfl, -⟩ := Prod.mk.inj (Option.some.inj hbody)
  exact length_lt_of_takeCounted hclientId

theorem toNat_lengthWord {bytes : Bytes} (h : bytes.length < 65536) :
    (lengthWord bytes).toNat = bytes.length := by
  rw [lengthWord, UInt16.toNat_ofNat']
  exact Nat.mod_eq_of_lt h

theorem takeProperties_none (version : MqttVersion) (bs : Bytes) :
    takeProperties version.protocolLevel
      ((if version = .v5 then [0x00] else []) ++ bs) = some ([], bs) := by
  cases version with
  | v3_1_1 => rfl
  | v5 => rfl

/-- The body of a built packet reads back. -/
theorem decodeBody_of_length_le {clientId : Text}
    (h : (Utf8.encode clientId).length ≤ 65535) (keepalive : UInt16)
    (version : MqttVersion) :
    ConnectPacket.decodeBody
      (toBeBytes (lengthWord mqttProtocolName) ++ (mqttProtocolName ++
        (version.protocolLevel :: connectFlagsCleanSession ::
          (toBeBytes keepalive ++ ((if version = .v5 then [0x00] else []) ++
            (toBeBytes (lengthWord (Utf8.encode clientId)) ++
              (Utf8.encode clientId ++ []))))))) =
      some (ConnectPacket.requested clientId keepalive version, []) := by
  have hname : (lengthWord mqttProtocolName).toNat =
      mqttProtocolName.length := toNat_lengthWord (by decide)
  have hid : (lengthWord (Utf8.encode clientId)).toNat =
      (Utf8.encode clientId).length := toNat_lengthWord (by omega)
  unfold ConnectPacket.decodeBody
  rw [takeCounted_append hname]
  simp only [Option.bind_eq_bind, Option.bind_some, takeByte_cons,
    takeWord_toBeBytes, takeProperties_none, takeCounted_append hid]
  rfl

/-- The layout gives back what was asked for, with nothing left over, exactly
when the client id fits its length word. -/
theorem decode_buildConnect_iff (clientId : Text) (keepalive : UInt16)
    (version : MqttVersion) :
    ConnectPacket.decode (buildConnect clientId keepalive version) =
        some (ConnectPacket.requested clientId keepalive version, []) ↔
      (Utf8.encode clientId).length ≤ 65535 := by
  constructor
  · intro h
    exact Nat.le_of_lt_succ (ConnectPacket.length_clientId_lt h)
  · intro h
    have hbody := decodeBody_of_length_le h keepalive version
    unfold buildConnect ConnectPacket.decode
    dsimp only
    rw [← List.length_append, encodeVarint_eq]
    simp only [List.append_assoc, List.cons_append, List.nil_append,
      List.append_nil] at hbody ⊢
    generalize hlayout : (toBeBytes (lengthWord mqttProtocolName) ++ _ :
      Bytes) = body at hbody ⊢
    have hlength : body.length < 128 ^ 4 := by
      have hprops : (if version = .v5 then [0x00] else [] : Bytes).length ≤
          1 := by split <;> simp
      have hname : mqttProtocolName.length = 4 := by decide
      rw [← hlayout]
      simp only [List.length_append, List.length_cons, hname,
        toBeBytes, List.length_nil]
      omega
    have hexact : takeExact body.length body = some (body, []) := by
      simpa using takeExact_append body []
    simp only [Option.bind_eq_bind, Option.bind_some, takeByte_cons,
      typeConnect, ne_eq, not_true_eq_false, if_false,
      Varint.take_encode (by decide : 0 < 4) hlength, hexact, hbody]
    rfl

theorem length_encode_replicate (n : ℕ) :
    (Utf8.encode (List.replicate n 'a')).length = n := by
  induction n with
  | zero => rfl
  | succ n ih =>
      rw [List.replicate_succ, Utf8.encode_cons, List.length_append, ih,
        Utf8.encodeChar_ascii (by decide), List.length_singleton]
      omega

/-- One byte more than the length word can count. -/
theorem not_decode_buildConnect_65536 :
    ConnectPacket.decode
        (buildConnect (List.replicate 65536 'a') 60 .v3_1_1) ≠
      some (ConnectPacket.requested (List.replicate 65536 'a') 60 .v3_1_1,
        []) := by
  intro h
  have hlt := ConnectPacket.length_clientId_lt h
  have hlength := length_encode_replicate 65536
  change (Utf8.encode (List.replicate 65536 'a')).length < 65536 at hlt
  omega

end Mqtt

end KnockKnock
