/-
The slow-path layers under the clipboard channel, as `ironrdp-pdu` and `ironrdp-svc` read and write
them: TPKT and X.224 data headers, the MCS Send Data PDUs, the channel header of a chunk, and the
cutting of one channel message into chunks. The main results are the round trips: an encoded Send
Data PDU decodes to what it was made from, and its bytes are one TPKT of exactly the length its
header gives.
-/
import WebAccess.Wire.Text

namespace WebAccess.Wire

open Codec

/-! ## TPKT and X.224 -/

/-- `TpktHeader::read`: the length of the whole packet. -/
def tpktHeader : Reader Nat := do
  let version ← uintBe 1
  require (version == 3)
  let _ ← slice 1
  let packetLength ← uintBe 2
  require (decide (7 ≤ packetLength))
  pure packetLength

/-- The headers of `X224<T>::decode` for a data TPDU: the size of its user data. A TPDU of another
code fails the code check, after the bytes its longer header has. -/
def x224Header : Reader Nat := do
  let packetLength ← tpktHeader
  ensure (packetLength - 4)
  let li ← uintBe 1
  let code ← uintBe 1
  require (decide (li + 5 ≤ packetLength))
  require (li != 0xFF)
  require (code == 0xF0)
  let _ ← slice 1
  require (decide (3 ≤ li + 1))
  pure (packetLength - 4 - (li + 1))

/-- `X224<X224Data>::decode`: the user data. -/
def x224Data (unit : Bytes) : Option Bytes :=
  (do slice (← x224Header) : Reader Bytes).run' unit

/-! ## MCS Send Data -/

/-- `SendDataRequest` and `SendDataIndication` have the same fields. -/
structure SendData where
  initiatorId : Nat
  channelId : Nat
  userData : Bytes
  deriving DecidableEq

/-- `McsMessage`: of the other domain PDUs nothing is read. -/
inductive McsMessage
  | sendDataRequest (data : SendData)
  | sendDataIndication (data : SendData)
  | other

def baseChannelId : Nat := 1001

/-- `per::read_length`: the length and the bytes it took. -/
def perLength : Reader (Nat × Nat) := do
  let a ← uintBe 1
  if a < 0x80 then pure (a, 1)
  else do
    let b ← uintBe 1
    pure ((a - 0x80) * 256 + b, 2)

/-- The body of `mcs_body_decode` after the choice byte: the user data has to fit what the TPDU
says it carries. -/
def sendData (tpduUserDataSize : Nat) : Reader SendData := do
  let initiator ← uintBe 2
  require (decide (initiator + baseChannelId < 2 ^ 16))
  let channelId ← uintBe 2
  let _ ← slice 1
  let (length, lengthSize) ← perLength
  require (decide (length ≤ tpduUserDataSize - (6 + lengthSize)))
  let userData ← slice length
  pure ⟨initiator + baseChannelId, channelId, userData⟩

/-- `X224<McsMessage>::decode`. The choice is the first byte without its two option bits. -/
def mcsMessage : Reader McsMessage := do
  let size ← x224Header
  let choice ← uintBe 1
  match choice / 4 with
  | 25 => .sendDataRequest <$> sendData size
  | 26 => .sendDataIndication <$> sendData size
  | _ => pure .other

def McsMessage.ofUnit (unit : Bytes) : Option McsMessage := mcsMessage.run' unit

/-- `per::write_length` -/
def encodePerLength (length : Nat) : Bytes :=
  if length ≤ 0x7F then beBytes 1 length else beBytes 2 (length ||| 0x8000)

/-- `SendDataRequest::mcs_body_encode` and `SendDataIndication::mcs_body_encode`, by choice. -/
def SendData.encodeBody (choice : Nat) (d : SendData) : Option Bytes :=
  if d.initiatorId < baseChannelId ∨ 2 ^ 16 ≤ d.userData.length then none
  else some (beBytes 1 (choice * 4) ++ beBytes 2 (d.initiatorId - baseChannelId) ++
    beBytes 2 d.channelId ++ [0x70] ++ encodePerLength d.userData.length ++ d.userData)

/-- `X224<SendData>::encode`: TPKT header, data TPDU header, body. -/
def SendData.encode (choice : Nat) (d : SendData) : Option Bytes := do
  let body ← d.encodeBody choice
  if 7 + body.length < 2 ^ 16 then
    pure ([3, 0] ++ beBytes 2 (7 + body.length) ++ [2, 0xF0, 0x80] ++ body)
  else none

/-! ## Chunks of a static virtual channel -/

def flagFirst : Nat := 0x0000_0001
def flagLast : Nat := 0x0000_0002
def flagShowProtocol : Nat := 0x0000_0010
def packetCompressed : Nat := 0x0020_0000

def channelChunkLength : Nat := 1600

/-- `ChannelPduHeader::decode`: the length of the whole message and the flags of this chunk. -/
def channelPduHeader : Reader (Nat × Nat) := do
  let length ← uintLe 4
  let flags ← uintLe 4
  pure (length, flags)

def chunk (total : Nat) (first last : Bool) (piece : Bytes) : Bytes :=
  leBytes 4 total ++
    leBytes 4 ((if first then flagFirst else 0) ||| (if last then flagLast else 0) ||| flagShowProtocol) ++
    piece

/-- The loop of `chunkify_one`: pieces of `channelChunkLength` bytes, the first and the last one
flagged. Each round but the last takes a full piece, so the length is enough fuel. -/
def chunksFrom (total : Nat) : Nat → Bool → Bytes → List Bytes
  | 0, first, rest => [chunk total first true rest]
  | fuel + 1, first, rest =>
    if rest.length ≤ channelChunkLength then [chunk total first true rest]
    else chunk total first false (rest.take channelChunkLength) ::
      chunksFrom total fuel false (rest.drop channelChunkLength)

/-- `ChunkProcessor::chunkify` of one message with `SHOW_PROTOCOL` set -/
def chunkify (message : Bytes) : Option (List Bytes) :=
  if message.length < 2 ^ 32 then some (chunksFrom message.length message.length true message) else none

/-- `encode_svc_messages` for one message: every chunk in a Send Data PDU of its own. -/
def encodeSvcMessage (choice channelId initiatorId : Nat) (message : Bytes) : Option (List Bytes) := do
  let chunks ← chunkify message
  chunks.mapM fun c => SendData.encode choice ⟨initiatorId, channelId, c⟩

/-- `client_encode_svc_messages`: the units, one after the other. -/
def clientEncodeSvcMessage (channelId initiatorId : Nat) (message : Bytes) : Option (List Bytes) :=
  encodeSvcMessage 25 channelId initiatorId message

/-- `server_encode_svc_messages` -/
def serverEncodeSvcMessage (channelId initiatorId : Nat) (message : Bytes) : Option (List Bytes) :=
  encodeSvcMessage 26 channelId initiatorId message

/-! ## Round trips of the headers -/

theorem tpktHeader_run (v r h l : UInt8) (rest : Bytes) :
    tpktHeader.run (v :: r :: h :: l :: rest) =
      if v.toNat = 3 ∧ 7 ≤ h.toNat * 256 + l.toNat then some (h.toNat * 256 + l.toNat, rest) else none := by
  have hlen : leNat [l, h] = h.toNat * 256 + l.toNat := by
    simp only [leNat]
    omega
  simp only [tpktHeader, StateT.run_bind, uintBe_run, slice_run, require_run, StateT.run_pure]
  by_cases hv : v.toNat = 3 <;> by_cases hl : 7 ≤ h.toNat * 256 + l.toNat <;> simp [beNat, leNat, hv, hl, hlen]

variable {rest : Bytes} {choice : Nat} {d : SendData}

theorem tpktHeader_append {n : Nat} (h : 7 ≤ n) (h' : n < 2 ^ 16) :
    tpktHeader.run (3 :: 0 :: (beBytes 2 n ++ rest)) = some (n, rest) := by
  simp [tpktHeader, uintBe_one_cons, slice_one_cons, require_run, uintBe_append (show n < 256 ^ 2 by omega), h]

variable {body unit : Bytes}

theorem x224Header_append (h : 7 + body.length < 2 ^ 16) :
    x224Header.run (3 :: 0 :: (beBytes 2 (7 + body.length) ++ 2 :: 0xF0 :: 0x80 :: body)) =
      some (body.length, body) := by
  have htpkt : tpktHeader.run (3 :: 0 :: (beBytes 2 (7 + body.length) ++ 2 :: 0xF0 :: 0x80 :: body)) =
      some (7 + body.length, 2 :: 0xF0 :: 0x80 :: body) := tpktHeader_append (by omega) h
  have hsize : 7 + body.length ≤ body.length + 1 + 1 + 1 + 4 := by omega
  have hleft : 7 + body.length - 4 - 3 = body.length := by omega
  simp [x224Header, htpkt, ensure_run, uintBe_one_cons, slice_one_cons, require_run, hsize, hleft]

theorem perLength_append {length : Nat} (h : length < 2 ^ 15) :
    perLength.run (encodePerLength length ++ rest) = some ((length, (encodePerLength length).length), rest) := by
  unfold encodePerLength
  split
  · have hlt : length < 0x80 := by omega
    simp [perLength, uintBe_append (show length < 256 ^ 1 by omega), hlt]
  · have hor : length ||| 0x8000 = length + 0x8000 := by
      rw [Nat.lor_comm, Nat.add_comm]
      exact (Nat.two_pow_add_eq_or_of_lt h 1).symm
    have hb : beBytes 2 (length + 0x8000) = [UInt8.ofNat (0x80 + length / 256), UInt8.ofNat length] := by
      have hdiv : (length + 0x8000) / 256 = 0x80 + length / 256 := by omega
      have hmod : UInt8.ofNat (length + 0x8000) = UInt8.ofNat length := by
        apply UInt8.toNat_inj.1
        simp only [UInt8.toNat_ofNat']
        omega
      simp [beBytes, leBytes, hdiv, hmod]
    have hlo : (UInt8.ofNat length).toNat = length % 256 := UInt8.toNat_ofNat'
    have hhi : (UInt8.ofNat (0x80 + length / 256)).toNat = 0x80 + length / 256 := by
      rw [UInt8.toNat_ofNat']
      omega
    rw [hor, hb]
    simp only [perLength, List.cons_append, List.nil_append, StateT.run_bind, uintBe_one_cons,
      Option.bind_eq_bind, Option.bind_some, hhi]
    rw [if_neg (by omega)]
    simp [uintBe_one_cons, hlo]
    omega

/-! ## Round trip of a Send Data PDU -/

def McsMessage.ofChoice (choice : Nat) (d : SendData) : McsMessage :=
  if choice = 25 then .sendDataRequest d else .sendDataIndication d

/-- The sizes a Send Data PDU is written with and read back: the length takes fifteen bits. -/
structure SendData.Fits (d : SendData) : Prop where
  initiator : d.initiatorId < 2 ^ 16
  channel : d.channelId < 2 ^ 16
  short : d.userData.length < 2 ^ 15

theorem SendData.encodeBody_eq_some (h : d.encodeBody choice = some body) :
    baseChannelId ≤ d.initiatorId ∧
      body = beBytes 1 (choice * 4) ++ (beBytes 2 (d.initiatorId - baseChannelId) ++
        (beBytes 2 d.channelId ++ 0x70 :: (encodePerLength d.userData.length ++ d.userData))) := by
  unfold SendData.encodeBody at h
  split at h
  · cases h
  · cases h
    exact ⟨by omega, by simp⟩

theorem sendData_append (hf : d.Fits) (hi : baseChannelId ≤ d.initiatorId) {size : Nat}
    (hsize : size = 6 + (encodePerLength d.userData.length).length + d.userData.length) :
    (sendData size).run (beBytes 2 (d.initiatorId - baseChannelId) ++
      (beBytes 2 d.channelId ++ 0x70 :: (encodePerLength d.userData.length ++ d.userData))) = some (d, []) := by
  have hlt : d.initiatorId < 65536 := hf.initiator
  have hini : d.initiatorId - baseChannelId < 256 ^ 2 := by omega
  have hchan : d.channelId < 256 ^ 2 := hf.channel
  have hback : d.initiatorId - baseChannelId + baseChannelId = d.initiatorId := by omega
  have hfit : d.userData.length ≤ size - (6 + (encodePerLength d.userData.length).length) := by omega
  have hall : (slice d.userData.length).run d.userData = some (d.userData, []) :=
    slice_run_eq_some.2 ⟨rfl, by simp⟩
  simp [sendData, uintBe_append hini, uintBe_append hchan, require_run, hback, hlt, slice_one_cons,
    perLength_append hf.short, hfit, hall]

theorem ofUnit_frame (hchoice : choice = 25 ∨ choice = 26) (hlen : 7 + (rest.length + 1) < 2 ^ 16)
    (hdata : (sendData (rest.length + 1)).run rest = some (d, [])) :
    McsMessage.ofUnit (3 :: 0 :: (beBytes 2 (7 + (rest.length + 1)) ++
      2 :: 0xF0 :: 0x80 :: UInt8.ofNat (choice * 4) :: rest)) = some (McsMessage.ofChoice choice d) := by
  have hread : x224Header.run (3 :: 0 :: (beBytes 2 (7 + (rest.length + 1)) ++
      2 :: 0xF0 :: 0x80 :: UInt8.ofNat (choice * 4) :: rest)) =
      some (rest.length + 1, UInt8.ofNat (choice * 4) :: rest) :=
    @x224Header_append (UInt8.ofNat (choice * 4) :: rest) hlen
  have hrun : mcsMessage.run (3 :: 0 :: (beBytes 2 (7 + (rest.length + 1)) ++
      2 :: 0xF0 :: 0x80 :: UInt8.ofNat (choice * 4) :: rest)) = some (McsMessage.ofChoice choice d, []) := by
    rw [mcsMessage, StateT.run_bind, hread]
    simp only [Option.bind_eq_bind, Option.bind_some, StateT.run_bind, uintBe_one_cons]
    rcases hchoice with rfl | rfl <;> simp [McsMessage.ofChoice, hdata]
  simp only [McsMessage.ofUnit, StateT.run']
  exact congrArg (Option.map Prod.fst) hrun

theorem ofUnit_encode (hchoice : choice = 25 ∨ choice = 26) (hf : d.Fits) (h : d.encode choice = some unit) :
    McsMessage.ofUnit unit = some (McsMessage.ofChoice choice d) := by
  obtain ⟨body, hbody, h⟩ := Option.bind_eq_some_iff.1 h
  obtain ⟨hi, rfl⟩ := SendData.encodeBody_eq_some hbody
  split at h
  · rename_i hlen
    cases h
    exact ofUnit_frame hchoice hlen (sendData_append hf hi (by simp; omega))
  · cases h

theorem tpktHeader_encode (h : d.encode choice = some unit) :
    7 ≤ unit.length ∧ unit.length < 2 ^ 16 ∧ unit.head? = some 3 ∧
        ∃ left, tpktHeader.run unit = some (unit.length, left) := by
  obtain ⟨body, _, h⟩ := Option.bind_eq_some_iff.1 h
  split at h
  · rename_i hlen
    cases h
    refine ⟨by simp; omega, by simp; omega, rfl, 2 :: 0xF0 :: 0x80 :: body, ?_⟩
    have hread : tpktHeader.run (3 :: 0 :: (beBytes 2 (7 + body.length) ++ 2 :: 0xF0 :: 0x80 :: body)) =
      some (7 + body.length, 2 :: 0xF0 :: 0x80 :: body) := tpktHeader_append (by omega) hlen
    simpa [Nat.add_comm, Nat.add_left_comm, Nat.add_assoc] using hread
  · cases h

end WebAccess.Wire
