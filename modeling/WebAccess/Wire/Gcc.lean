/-
The Connect Initial as `ironrdp-pdu` reads it (`mcs.rs`, `ber.rs`, `gcc/`): the BER fields of the MCS
PDU, the GCC Conference Create Request in PER, and the client's settings blocks, of which a later one
of a type replaces an earlier one and one of an unknown type is skipped. Where the source would read
past the end of a block and panic, the read fails here. The main result says where the channel list
stands: whatever channels are written over it, the same number of them, are read back, and nothing
else of the Connect Initial changes (`decode_layout`).
-/
import WebAccess.Wire.Mcs

namespace WebAccess.Wire

open Codec

/-! ## BER -/

namespace Ber

def readLength : Reader Nat := do
  let byte ← uintBe 1
  if byte < 0x80 then pure byte
  else if byte - 0x80 = 1 then uintBe 1
  else if byte - 0x80 = 2 then uintBe 2
  else fails

/-- The identifier of a tag: class, primitive or constructed, and number. -/
def readIdentifier (identifier : Nat) : Reader Unit := do
  let byte ← uintBe 1
  require (byte == identifier)

def readSequenceTag : Reader Nat := do
  readIdentifier (0x20 ||| 0x10)
  readLength

/-- `read_application_tag`, for a number above 0x1E: it has a byte of its own. -/
def readApplicationTag (tagnum : Nat) : Reader Nat := do
  readIdentifier (0x40 ||| 0x20 ||| 0x1F)
  readIdentifier tagnum
  readLength

def readInteger : Reader Nat := do
  readIdentifier 0x02
  let length ← readLength
  if length = 1 ∨ length = 2 ∨ length = 3 ∨ length = 4 ∨ length = 8 then uintBe length else fails

def readBool : Reader Bool := do
  readIdentifier 0x01
  let length ← readLength
  require (length == 1)
  let byte ← uintBe 1
  pure (byte != 0)

def readOctetStringTag : Reader Nat := do
  readIdentifier 0x04
  readLength

def readOctetString : Reader Bytes := do
  slice (← readOctetStringTag)

end Ber

structure DomainParameters where
  maxChannelIds : Nat
  maxUserIds : Nat
  maxTokenIds : Nat
  numPriorities : Nat
  minThroughput : Nat
  maxHeight : Nat
  maxMcsPduSize : Nat
  protocolVersion : Nat

/-- An integer that is cast to thirty-two bits. -/
def readInteger32 : Reader Nat := do
  let n ← Ber.readInteger
  require (decide (n < 2 ^ 32))
  pure n

def DomainParameters.decode : Reader DomainParameters := do
  let _ ← Ber.readSequenceTag
  let maxChannelIds ← readInteger32
  let maxUserIds ← readInteger32
  let maxTokenIds ← readInteger32
  let numPriorities ← readInteger32
  let minThroughput ← readInteger32
  let maxHeight ← readInteger32
  let maxMcsPduSize ← readInteger32
  let protocolVersion ← readInteger32
  pure ⟨maxChannelIds, maxUserIds, maxTokenIds, numPriorities, minThroughput, maxHeight, maxMcsPduSize, protocolVersion⟩

/-! ## The client's core data -/

/-- `String::from_utf16_lossy`: a surrogate that is not one of a pair becomes U+FFFD. -/
def fromUtf16Lossy : List Nat → Text
  | [] => []
  | [u] => [if u < 0xD800 ∨ 0xE000 ≤ u then Char.ofNat u else Char.ofNat 0xFFFD]
  | u :: v :: us =>
    if u < 0xD800 ∨ 0xE000 ≤ u then Char.ofNat u :: fromUtf16Lossy (v :: us)
    else if u < 0xDC00 ∧ 0xDC00 ≤ v ∧ v < 0xE000 then
      Char.ofNat (0x10000 + (u - 0xD800) * 0x400 + (v - 0xDC00)) :: fromUtf16Lossy us
    else Char.ofNat 0xFFFD :: fromUtf16Lossy (v :: us)

/-- `from_utf16_bytes` without the NULs at the end -/
def fixedText (bs : Bytes) : Text := trimEndNul (fromUtf16Lossy (codeUnits bs))

inductive ColorDepth
  | bpp4
  | bpp8
  | rgb555Bpp16
  | rgb565Bpp16
  | bpp24

def ColorDepth.fromU16 : Nat → Option ColorDepth
  | 0xCA00 => some .bpp4
  | 0xCA01 => some .bpp8
  | 0xCA02 => some .rgb555Bpp16
  | 0xCA03 => some .rgb565Bpp16
  | 0xCA04 => some .bpp24
  | _ => none

inductive HighColorDepth
  | bpp4
  | bpp8
  | rgb555Bpp16
  | rgb565Bpp16
  | bpp24

def HighColorDepth.fromU16 : Nat → Option HighColorDepth
  | 0x0004 => some .bpp4
  | 0x0008 => some .bpp8
  | 0x000F => some .rgb555Bpp16
  | 0x0010 => some .rgb565Bpp16
  | 0x0018 => some .bpp24
  | _ => none

inductive ConnectionType
  | notUsed
  | modem
  | broadbandLow
  | satellite
  | broadbandHigh
  | wan
  | lan
  | autodetect

def ConnectionType.fromU8 : Nat → Option ConnectionType
  | 0 => some .notUsed
  | 1 => some .modem
  | 2 => some .broadbandLow
  | 3 => some .satellite
  | 4 => some .broadbandHigh
  | 5 => some .wan
  | 6 => some .lan
  | 7 => some .autodetect
  | _ => none

/-- `from_bits`: a word with no other bits than those of the flags. -/
def fromBits (all bits : Nat) : Option Nat := if hasBits all bits then some bits else none

/-- `ClientCoreOptionalData`: each field is there only if those before it are. -/
structure ClientCoreOptionalData where
  postBeta2ColorDepth : Option ColorDepth := none
  clientProductId : Option Nat := none
  serialNumber : Option Nat := none
  highColorDepth : Option HighColorDepth := none
  supportedColorDepths : Option Nat := none
  earlyCapabilityFlags : Option Nat := none
  digProductId : Option Text := none
  connectionType : Option ConnectionType := none
  serverSelectedProtocol : Option Nat := none
  desktopPhysicalWidth : Option Nat := none
  desktopPhysicalHeight : Option Nat := none
  desktopOrientation : Option Nat := none
  desktopScaleFactor : Option Nat := none
  deviceScaleFactor : Option Nat := none

namespace ClientCoreOptionalData

/-- `ClientCoreOptionalData::decode`: it ends with the first field that is not there. -/
def decode : Reader ClientCoreOptionalData := do
  let d : ClientCoreOptionalData := {}
  let some depth ← tryRead (uintLe 2) | pure d
  let d := { d with postBeta2ColorDepth := some (← given (ColorDepth.fromU16 depth)) }
  let some product ← tryRead (uintLe 2) | pure d
  let d := { d with clientProductId := some product }
  let some serial ← tryRead (uintLe 4) | pure d
  let d := { d with serialNumber := some serial }
  let some high ← tryRead (uintLe 2) | pure d
  let d := { d with highColorDepth := some (← given (HighColorDepth.fromU16 high)) }
  let some supported ← tryRead (uintLe 2) | pure d
  let d := { d with supportedColorDepths := some (← given (fromBits 0x000F supported)) }
  let some early ← tryRead (uintLe 2) | pure d
  let d := { d with earlyCapabilityFlags := some early }
  let some dig ← tryRead (slice 64) | pure d
  let d := { d with digProductId := some (fixedText dig) }
  let some connection ← tryRead (uintLe 1) | pure d
  let d := { d with connectionType := some (← given (ConnectionType.fromU8 connection)) }
  let some _ ← tryRead (uintLe 1) | pure d
  let some selected ← tryRead (uintLe 4) | pure d
  let d := { d with serverSelectedProtocol := some selected }
  let some width ← tryRead (uintLe 4) | pure d
  let d := { d with desktopPhysicalWidth := some width, desktopPhysicalHeight := some (← uintLe 4) }
  let some orientation ← tryRead (uintLe 2) | pure d
  let d := { d with desktopOrientation := some orientation }
  let some scale ← tryRead (uintLe 4) | pure d
  pure { d with desktopScaleFactor := some scale, deviceScaleFactor := some (← uintLe 4) }

def size (d : ClientCoreOptionalData) : Nat :=
  (if d.postBeta2ColorDepth.isSome then 2 else 0) + (if d.clientProductId.isSome then 2 else 0) +
  (if d.serialNumber.isSome then 4 else 0) + (if d.highColorDepth.isSome then 2 else 0) +
  (if d.supportedColorDepths.isSome then 2 else 0) + (if d.earlyCapabilityFlags.isSome then 2 else 0) +
  (if d.digProductId.isSome then 64 else 0) + (if d.connectionType.isSome then 2 else 0) +
  (if d.serverSelectedProtocol.isSome then 4 else 0) + (if d.desktopPhysicalWidth.isSome then 4 else 0) +
  (if d.desktopPhysicalHeight.isSome then 4 else 0) + (if d.desktopOrientation.isSome then 2 else 0) +
  (if d.desktopScaleFactor.isSome then 4 else 0) + (if d.deviceScaleFactor.isSome then 4 else 0)

end ClientCoreOptionalData

/-- `ClientCoreData`. The one value of `SecureAccessSequence` is checked and not kept. -/
structure ClientCoreData where
  version : Nat
  desktopWidth : Nat
  desktopHeight : Nat
  colorDepth : ColorDepth
  keyboardLayout : Nat
  clientBuild : Nat
  clientName : Text
  keyboardType : Nat
  keyboardSubtype : Nat
  keyboardFunctionalKeysCount : Nat
  imeFileName : Text
  optionalData : ClientCoreOptionalData

def ClientCoreData.decode : Reader ClientCoreData := do
  ensure 128
  let version ← uintLe 4
  let desktopWidth ← uintLe 2
  let desktopHeight ← uintLe 2
  let colorDepth ← given (ColorDepth.fromU16 (← uintLe 2))
  require ((← uintLe 2) == 0xAA03)
  let keyboardLayout ← uintLe 4
  let clientBuild ← uintLe 4
  let clientName := fixedText (← slice 32)
  let keyboardType ← uintLe 4
  let keyboardSubtype ← uintLe 4
  let keyboardFunctionalKeysCount ← uintLe 4
  let imeFileName := fixedText (← slice 64)
  let optionalData ← ClientCoreOptionalData.decode
  pure { version, desktopWidth, desktopHeight, colorDepth, keyboardLayout, clientBuild, clientName, keyboardType,
         keyboardSubtype, keyboardFunctionalKeysCount, imeFileName, optionalData }

def ClientCoreData.size (d : ClientCoreData) : Nat := 128 + d.optionalData.size

/-! ## The other blocks -/

structure ClientSecurityData where
  encryptionMethods : Nat
  extEncryptionMethods : Nat

def ClientSecurityData.decode : Reader ClientSecurityData := do
  ensure 8
  let encryptionMethods ← uintLe 4
  let extEncryptionMethods ← uintLe 4
  pure { encryptionMethods, extEncryptionMethods }

structure ClientClusterData where
  flags : Nat
  redirectionVersion : Nat
  redirectedSessionId : Nat

/-- `ClientClusterData::decode`: of the eight versions the word has room for, six are known. -/
def ClientClusterData.decode : Reader ClientClusterData := do
  ensure 8
  let flagsWithVersion ← uintLe 4
  let redirectedSessionId ← uintLe 4
  let redirectionVersion := (flagsWithVersion &&& 0x3C) >>> 2
  require (decide (redirectionVersion ≤ 5))
  pure { flags := flagsWithVersion &&& (2 ^ 32 - 1 - 0x3C), redirectionVersion, redirectedSessionId }

def int32Le : Reader Int := do
  let n ← uintLe 4
  pure (if n < 2 ^ 31 then n else n - 2 ^ 32)

structure Monitor where
  left : Int
  top : Int
  right : Int
  bottom : Int
  flags : Nat

def Monitor.decode : Reader Monitor := do
  ensure 20
  let left ← int32Le
  let top ← int32Le
  let right ← int32Le
  let bottom ← int32Le
  let flags ← uintLe 4
  pure { left, top, right, bottom, flags }

/-- `ClientMonitorData::decode`: the monitors. -/
def ClientMonitorData.decode : Reader (List Monitor) := do
  ensure 8
  let _ ← uintLe 4
  let count ← uintLe 4
  require (decide (count ≤ 16))
  repeatN Monitor.decode count

inductive MonitorOrientation
  | landscape
  | portrait
  | landscapeFlipped
  | portraitFlipped

def MonitorOrientation.fromU32 : Nat → Option MonitorOrientation
  | 0 => some .landscape
  | 90 => some .portrait
  | 180 => some .landscapeFlipped
  | 270 => some .portraitFlipped
  | _ => none

structure ExtendedMonitorInfo where
  physicalWidth : Nat
  physicalHeight : Nat
  orientation : MonitorOrientation
  desktopScaleFactor : Nat
  deviceScaleFactor : Nat

def ExtendedMonitorInfo.decode : Reader ExtendedMonitorInfo := do
  ensure 20
  let physicalWidth ← uintLe 4
  let physicalHeight ← uintLe 4
  let orientation ← given (MonitorOrientation.fromU32 (← uintLe 4))
  let desktopScaleFactor ← uintLe 4
  let deviceScaleFactor ← uintLe 4
  pure { physicalWidth, physicalHeight, orientation, desktopScaleFactor, deviceScaleFactor }

def ClientMonitorExtendedData.decode : Reader (List ExtendedMonitorInfo) := do
  ensure 12
  let _ ← uintLe 4
  require ((← uintLe 4) == 20)
  let count ← uintLe 4
  require (decide (count ≤ 16))
  repeatN ExtendedMonitorInfo.decode count

/-- `ClientMessageChannelData::decode`: its flags are not kept. -/
def ClientMessageChannelData.decode : Reader Unit := do
  ensure 4
  let _ ← uintLe 4
  pure ()

/-- `MultiTransportChannelData::decode`: the flags. -/
def MultiTransportChannelData.decode : Reader Nat := do
  ensure 4
  uintLe 4

/-! ## The channel list -/

/-- `ChannelOptions::all` -/
def channelOptions : Nat := 0xFEF0_0000

/-- `ChannelName::new`: the last of the eight bytes is the NUL, whatever it was. -/
def channelName (wire : Bytes) : Bytes := wire.take 7 ++ [0]

/-- `ChannelDef`, with the eight bytes its name was on the wire. -/
structure ChannelDef where
  wire : Bytes
  options : Nat
  deriving DecidableEq

def ChannelDef.name (c : ChannelDef) : Bytes := channelName c.wire

def ChannelDef.decode : Reader ChannelDef := do
  ensure 12
  let wire ← slice 8
  let options ← given (fromBits channelOptions (← uintLe 4))
  pure { wire, options }

structure ClientNetworkData where
  channels : List ChannelDef

def ClientNetworkData.decode : Reader ClientNetworkData := do
  ensure 4
  let count ← uintLe 4
  require (decide (count ≤ 31))
  let channels ← repeatN ChannelDef.decode count
  pure { channels }

/-! ## The settings blocks -/

/-- `UserDataHeader::decode_raw`: the type of the next block and its body. -/
def UserDataHeader.decodeRaw : Reader (Nat × Bytes) := do
  ensure 4
  let type ← uintLe 2
  let length ← uintLe 2
  require (decide (4 < length))
  let body ← slice (length - 4)
  pure (type, body)

structure ClientGccBlocks where
  core : ClientCoreData
  security : ClientSecurityData
  network : Option ClientNetworkData
  cluster : Option ClientClusterData
  monitor : Option (List Monitor)
  messageChannel : Option Unit
  multiTransportChannel : Option Nat
  monitorExtended : Option (List ExtendedMonitorInfo)

/-- `ClientGccBlocks::size`: each block with its header. -/
def ClientGccBlocks.size (blocks : ClientGccBlocks) : Nat :=
  blocks.core.size + 8 + 4 * 2 +
  (blocks.network.map fun network => 4 + network.channels.length * 12 + 4).getD 0 +
  (blocks.cluster.map fun _ => 8 + 4).getD 0 +
  (blocks.monitor.map fun monitors => 8 + monitors.length * 20 + 4).getD 0 +
  (blocks.messageChannel.map fun _ => 4 + 4).getD 0 + (blocks.multiTransportChannel.map fun _ => 4 + 4).getD 0 +
  (blocks.monitorExtended.map fun monitors => 12 + monitors.length * 20 + 4).getD 0

structure GccBlocks where
  core : Option ClientCoreData := none
  security : Option ClientSecurityData := none
  network : Option ClientNetworkData := none
  cluster : Option ClientClusterData := none
  monitor : Option (List Monitor) := none
  messageChannel : Option Unit := none
  multiTransportChannel : Option Nat := none
  monitorExtended : Option (List ExtendedMonitorInfo) := none

namespace GccBlocks

/-- A block is read by its type, and replaces one of the same type; one of another type is skipped. -/
def add (blocks : GccBlocks) (type : Nat) (body : Bytes) : Option GccBlocks :=
  match type with
  | 0xC001 => (ClientCoreData.decode.run' body).map fun core => { blocks with core := some core }
  | 0xC002 => (ClientSecurityData.decode.run' body).map fun security => { blocks with security := some security }
  | 0xC003 => (ClientNetworkData.decode.run' body).map fun network => { blocks with network := some network }
  | 0xC004 => (ClientClusterData.decode.run' body).map fun cluster => { blocks with cluster := some cluster }
  | 0xC005 => (ClientMonitorData.decode.run' body).map fun monitor => { blocks with monitor := some monitor }
  | 0xC006 => (ClientMessageChannelData.decode.run' body).map fun data => { blocks with messageChannel := some data }
  | 0xC008 =>
    (ClientMonitorExtendedData.decode.run' body).map fun monitors => { blocks with monitorExtended := some monitors }
  | 0xC00A =>
    (MultiTransportChannelData.decode.run' body).map fun flags => { blocks with multiTransportChannel := some flags }
  | _ => some blocks

/-- The loop of `ClientGccBlocks::decode`. A block has more than four bytes, so the length is enough fuel. -/
def readAll : Nat → GccBlocks → Bytes → Option GccBlocks
  | _, blocks, [] => some blocks
  | 0, _, _ :: _ => none
  | fuel + 1, blocks, b :: bs =>
    (UserDataHeader.decodeRaw.run (b :: bs)).bind fun ((type, body), rest) =>
      (blocks.add type body).bind fun blocks => readAll fuel blocks rest

/-- The blocks there are in the end: the core and the security block have to be among them. -/
def finish (blocks : GccBlocks) : Option ClientGccBlocks := do
  let core ← blocks.core
  let security ← blocks.security
  pure { blocks with core, security }

end GccBlocks

def ClientGccBlocks.decode (bs : Bytes) : Option ClientGccBlocks :=
  (GccBlocks.readAll bs.length {} bs).bind GccBlocks.finish

/-! ## The Conference Create Request -/

namespace Per

def readObjectId : Reader Bytes := do
  let (length, _) ← perLength
  require (length == 5)
  let first ← uintBe 1
  let rest ← slice 4
  pure ([UInt8.ofNat (first / 40), UInt8.ofNat (first % 40)] ++ rest)

def readOctetString (min : Nat) : Reader Bytes := do
  let (length, _) ← perLength
  slice (min + length)

/-- `read_numeric_string`: two digits in a byte. -/
def readNumericString (min : Nat) : Reader Unit := do
  let (length, _) ← perLength
  let _ ← slice ((length + min + 1) / 2)
  pure ()

end Per

def expect (value : Nat) : Reader Unit := do
  let byte ← uintBe 1
  require (byte == value)

/-- `ConferenceCreateRequest::decode` up to the settings blocks. The lengths in it are read and not used. -/
def conferenceCreateHeader : Reader Unit := do
  expect 0
  let objectId ← Per.readObjectId
  require (objectId == [0, 0, 20, 124, 0, 1])
  let _ ← perLength
  expect 0
  expect 8
  Per.readNumericString 1
  let _ ← slice 1
  expect 1
  expect 0xC0
  let key ← Per.readOctetString 4
  require (key == [0x44, 0x75, 0x63, 0x61])
  let _ ← perLength
  pure ()

/-- `ConferenceCreateRequest`: small enough to be written. -/
structure ConferenceCreateRequest where
  gccBlocks : ClientGccBlocks
  small : gccBlocks.size ≤ 0xFFFF - 12

def ConferenceCreateRequest.new (gccBlocks : ClientGccBlocks) : Option ConferenceCreateRequest :=
  if small : gccBlocks.size ≤ 0xFFFF - 12 then some ⟨gccBlocks, small⟩ else none

/-! ## The Connect Initial -/

/-- The fields of a `ConnectInitial` but for the request. -/
structure ConnectHeader where
  callingDomainSelector : Bytes
  calledDomainSelector : Bytes
  upwardFlag : Bool
  targetParameters : DomainParameters
  minParameters : DomainParameters
  maxParameters : DomainParameters

/-- They are read first, and with them the request up to its settings blocks. -/
def ConnectHeader.decode : Reader ConnectHeader := do
  let _ ← Ber.readApplicationTag 0x65
  let callingDomainSelector ← Ber.readOctetString
  let calledDomainSelector ← Ber.readOctetString
  let upwardFlag ← Ber.readBool
  let targetParameters ← DomainParameters.decode
  let minParameters ← DomainParameters.decode
  let maxParameters ← DomainParameters.decode
  let _ ← Ber.readOctetStringTag
  conferenceCreateHeader
  pure { callingDomainSelector, calledDomainSelector, upwardFlag, targetParameters, minParameters, maxParameters }

structure ConnectInitial extends ConnectHeader where
  conferenceCreateRequest : ConferenceCreateRequest

namespace ConnectInitial

/-- `ConnectInitial::decode`: the settings blocks go on to the end. -/
def decode (data : Bytes) : Option ConnectInitial := do
  let (header, rest) ← ConnectHeader.decode.run data
  let blocks ← ClientGccBlocks.decode rest
  let conferenceCreateRequest ← ConferenceCreateRequest.new blocks
  pure { header with conferenceCreateRequest }

def channelNames (ci : ConnectInitial) : Option (List ChannelDef) :=
  ci.conferenceCreateRequest.gccBlocks.network.map ClientNetworkData.channels

end ConnectInitial

/-! ## The fields before the blocks -/

section Locality

-- A decoder is part of its instance once for every field it has.
set_option synthInstance.maxSize 10000

namespace Ber

instance : Local readLength := by unfold readLength; infer_instance
instance (identifier : Nat) : Local (readIdentifier identifier) := by unfold readIdentifier; infer_instance
instance : Local readSequenceTag := by unfold readSequenceTag; infer_instance
instance (tagnum : Nat) : Local (readApplicationTag tagnum) := by unfold readApplicationTag; infer_instance
instance : Local readInteger := by unfold readInteger; infer_instance
instance : Local readBool := by unfold readBool; infer_instance
instance : Local readOctetStringTag := by unfold readOctetStringTag; infer_instance
instance : Local readOctetString := by unfold readOctetString; infer_instance

end Ber

instance : Local readInteger32 := by unfold readInteger32; infer_instance
instance : Local DomainParameters.decode := by unfold DomainParameters.decode; infer_instance
instance : Local perLength := by unfold perLength; infer_instance
instance : Local Per.readObjectId := by unfold Per.readObjectId; infer_instance
instance (min : Nat) : Local (Per.readOctetString min) := by unfold Per.readOctetString; infer_instance
instance (min : Nat) : Local (Per.readNumericString min) := by unfold Per.readNumericString; infer_instance
instance (value : Nat) : Local (expect value) := by unfold expect; infer_instance
instance : Local conferenceCreateHeader := by unfold conferenceCreateHeader; infer_instance
instance : Local ConnectHeader.decode := by unfold ConnectHeader.decode; infer_instance
instance : Local tpktHeader := by unfold tpktHeader; infer_instance
instance : Local x224Header := by unfold x224Header; infer_instance

end Locality

/-! ## Where the channels stand -/

namespace ChannelDef

/-- `ChannelDef::encode`, with the name as it was on the wire. -/
def encode (c : ChannelDef) : Bytes := c.wire ++ leBytes 4 c.options

/-- What a channel that was read has: eight bytes of name, and no unknown option. -/
structure Valid (c : ChannelDef) : Prop where
  name : c.wire.length = 8
  options : hasBits channelOptions c.options = true

variable {c : ChannelDef}

theorem Valid.options_lt (h : c.Valid) : c.options < 256 ^ 4 := by
  have hle : channelOptions &&& c.options ≤ channelOptions := Nat.and_le_left
  rw [beq_iff_eq.1 h.options] at hle
  exact hle.trans_lt (by decide)

theorem decode_run {bs rest : Bytes} : ChannelDef.decode.run bs = some (c, rest) ↔ c.Valid ∧ bs = c.encode ++ rest := by
  have hbits : ∀ {word options : Nat}, fromBits channelOptions word = some options ↔
      hasBits channelOptions options = true ∧ word = options := by
    intro word options
    unfold fromBits
    split
    · rename_i hword
      rw [Option.some_inj]
      exact ⟨fun h => ⟨h ▸ hword, h⟩, fun h => h.2⟩
    · rename_i hword
      exact ⟨fun h => (by cases h), fun h => absurd (h.2 ▸ h.1) hword⟩
  simp only [ChannelDef.decode, StateT.run_bind, Option.bind_eq_bind, Option.bind_eq_some_iff, Prod.exists]
  constructor
  · rintro ⟨_, bs₁, hensure, wire, bs₂, hwire, word, bs₃, hword, options, bs₄, hoptions, hc⟩
    obtain ⟨-, rfl⟩ := ensure_run_eq_some.1 hensure
    obtain ⟨hlength, rfl⟩ := slice_run_eq_some.1 hwire
    obtain ⟨-, rfl⟩ := uintLe_run_eq_some.1 hword
    obtain ⟨hflags, rfl⟩ := given_run_eq_some.1 hoptions
    obtain ⟨hflags, rfl⟩ := hbits.1 hflags
    cases hc
    exact ⟨⟨hlength, hflags⟩, by simp [encode]⟩
  · rintro ⟨hvalid, rfl⟩
    have hlength : 12 ≤ (c.encode ++ rest).length := by
      simp [encode, hvalid.name]
      omega
    have hwire : (slice 8).run (c.encode ++ rest) = some (c.wire, leBytes 4 c.options ++ rest) :=
      slice_run_eq_some.2 ⟨hvalid.name, by simp [encode]⟩
    exact ⟨(), _, ensure_run_eq_some.2 ⟨hlength, rfl⟩, _, _, hwire, _, _, uintLe_append hvalid.options_lt, _, _,
      given_run_eq_some.2 ⟨hbits.2 ⟨hvalid.options, rfl⟩, rfl⟩, rfl⟩

theorem repeatN_run : ∀ {n : Nat} {bs rest : Bytes} {cs : List ChannelDef},
    (repeatN ChannelDef.decode n).run bs = some (cs, rest) ↔
      cs.length = n ∧ (∀ c ∈ cs, c.Valid) ∧ bs = cs.flatMap encode ++ rest
  | 0, bs, rest, cs => by
    rw [List.length_eq_zero_iff]
    constructor
    · intro h
      cases h
      exact ⟨rfl, (fun _ hc => by cases hc), rfl⟩
    · rintro ⟨rfl, -, rfl⟩
      rfl
  | n + 1, bs, rest, cs => by
    simp only [repeatN, StateT.run_bind, Option.bind_eq_bind, Option.bind_eq_some_iff]
    constructor
    · rintro ⟨⟨c, bs₁⟩, hc, ⟨cs', bs₂⟩, hcs, h⟩
      cases h
      obtain ⟨hvalid, rfl⟩ := decode_run.1 hc
      obtain ⟨rfl, hall, rfl⟩ := repeatN_run.1 hcs
      exact ⟨rfl, List.forall_mem_cons.2 ⟨hvalid, hall⟩, by simp⟩
    · rintro ⟨hlength, hall, rfl⟩
      obtain ⟨c, cs, rfl⟩ := List.exists_cons_of_length_eq_add_one hlength
      obtain ⟨hvalid, hall⟩ := List.forall_mem_cons.1 hall
      refine ⟨(c, cs.flatMap encode ++ rest), decode_run.2 ⟨hvalid, by simp⟩, (cs, rest), ?_, rfl⟩
      exact repeatN_run.2 ⟨Nat.succ.inj hlength, hall, rfl⟩

end ChannelDef

theorem ChannelDef.length_encode_all : ∀ {cs : List ChannelDef}, (∀ c ∈ cs, c.Valid) →
    (cs.flatMap ChannelDef.encode).length = 12 * cs.length
  | [], _ => rfl
  | c :: cs, h => by
    obtain ⟨hc, hcs⟩ := List.forall_mem_cons.1 h
    rw [List.flatMap_cons, List.length_append, length_encode_all hcs, List.length_cons, ChannelDef.encode,
      List.length_append, hc.name, length_leBytes]
    omega

variable {body : Bytes} {network : ClientNetworkData}

/-- `ClientNetworkData::encode` -/
def ClientNetworkData.encode (network : ClientNetworkData) : Bytes :=
  leBytes 4 network.channels.length ++ network.channels.flatMap ChannelDef.encode

theorem ClientNetworkData.length_encode (h : ∀ c ∈ network.channels, c.Valid) :
    network.encode.length = 4 + 12 * network.channels.length := by
  rw [encode, List.length_append, length_leBytes, ChannelDef.length_encode_all h]

theorem ClientNetworkData.decode_iff :
    ClientNetworkData.decode.run' body = some network ↔ network.channels.length ≤ 31 ∧
      (∀ c ∈ network.channels, c.Valid) ∧ ∃ tail, body = network.encode ++ tail := by
  rw [run'_eq_some]
  constructor
  · rintro ⟨tail, h⟩
    simp only [ClientNetworkData.decode, StateT.run_bind, Option.bind_eq_bind, Option.bind_eq_some_iff] at h
    obtain ⟨⟨_, bs₁⟩, hensure, ⟨count, bs₂⟩, hcount, ⟨_, bs₃⟩, hrequire, ⟨channels, bs₄⟩, hchannels, h⟩ := h
    obtain ⟨-, rfl⟩ := ensure_run_eq_some.1 hensure
    obtain ⟨-, rfl⟩ := uintLe_run_eq_some.1 hcount
    obtain ⟨hmost, rfl⟩ := require_run_eq_some.1 hrequire
    obtain ⟨rfl, hall, rfl⟩ := ChannelDef.repeatN_run.1 hchannels
    cases h
    exact ⟨of_decide_eq_true hmost, hall, _, (List.append_assoc ..).symm⟩
  · rintro ⟨hmost, hall, tail, rfl⟩
    have hcount : network.channels.length < 256 ^ 4 := by omega
    have hchannels : (repeatN ChannelDef.decode network.channels.length).run
        (network.channels.flatMap ChannelDef.encode ++ tail) = some (network.channels, tail) :=
      ChannelDef.repeatN_run.2 ⟨rfl, hall, rfl⟩
    refine ⟨tail, ?_⟩
    simp [ClientNetworkData.decode, encode, ensure_run, uintLe_append hcount, require_run, hmost, hchannels]

/-! ## Where the network block stands -/

theorem UserDataHeader.decodeRaw_run {bs rest : Bytes} {type : Nat}
    (h : UserDataHeader.decodeRaw.run bs = some ((type, body), rest)) :
    ∃ head, head ≠ [] ∧ bs = head ++ (body ++ rest) ∧ ∀ body' rest' : Bytes, body'.length = body.length →
      UserDataHeader.decodeRaw.run (head ++ (body' ++ rest')) = some ((type, body'), rest') := by
  simp only [UserDataHeader.decodeRaw, StateT.run_bind, Option.bind_eq_bind, Option.bind_eq_some_iff, Prod.exists] at h
  obtain ⟨_, bs₁, hensure, type, bs₂, htype, length, bs₃, hlength, _, bs₄, hrequire, body, bs₅, hbody, h⟩ := h
  cases h
  obtain ⟨-, rfl⟩ := ensure_run_eq_some.1 hensure
  obtain ⟨htypeLt, rfl⟩ := uintLe_run_eq_some.1 htype
  obtain ⟨hlengthLt, rfl⟩ := uintLe_run_eq_some.1 hlength
  obtain ⟨hlong, rfl⟩ := require_run_eq_some.1 hrequire
  obtain ⟨hsize, rfl⟩ := slice_run_eq_some.1 hbody
  refine ⟨leBytes 2 type ++ leBytes 2 length, by simp [leBytes], by simp, fun body' rest' hsame => ?_⟩
  have hslice : (slice (length - 4)).run (body' ++ rest') = some (body', rest') := slice_append (hsame.trans hsize)
  have hensure : 4 ≤ (leBytes 2 type ++ (leBytes 2 length ++ (body' ++ rest'))).length := by
    simp
    omega
  rw [List.append_assoc]
  simp only [UserDataHeader.decodeRaw, StateT.run_bind, ensure_run, if_pos hensure,
    Option.bind_eq_bind, Option.bind_some,
    uintLe_append htypeLt, uintLe_append hlengthLt, require_run, hlong, if_true, hslice]
  rfl

namespace GccBlocks

variable {blocks blocks' : GccBlocks} {network network' : ClientNetworkData} {type fuel : Nat} {bs body : Bytes}

def withNetwork (blocks : GccBlocks) (network : Option ClientNetworkData) : GccBlocks := { blocks with network }

theorem add_other (htype : type ≠ 0xC003) (h : blocks.add type body = some blocks') :
    blocks'.network = blocks.network ∧ ∀ x, (blocks.withNetwork x).add type body = some (blocks'.withNetwork x) := by
  unfold add at h
  split at h
  case h_3 => exact absurd rfl htype
  case h_9 =>
    rename_i h1 h2 h3 h4 h5 h6 h7 h8
    cases h
    exact ⟨rfl, fun x => by unfold add; split <;> first | rfl | contradiction⟩
  all_goals
    obtain ⟨a, ha, rfl⟩ := Option.map_eq_some_iff.1 h
    refine ⟨rfl, fun x => ?_⟩
    simp only [add, ha, Option.map_some]
    rfl

theorem add_network : (blocks.add 0xC003 body) = (ClientNetworkData.decode.run' body).map fun n =>
    blocks.withNetwork (some n) :=
  rfl

theorem readAll_cons (h : bs ≠ []) : readAll (fuel + 1) blocks bs =
    (UserDataHeader.decodeRaw.run bs).bind fun ((type, body), rest) =>
      (blocks.add type body).bind fun blocks => readAll fuel blocks rest := by
  cases bs with
  | nil => exact absurd rfl h
  | cons b bs => rfl

/-- What is read of the blocks but for the network block: there was none, or the last one can be exchanged. -/
inductive Exchange (fuel : Nat) (blocks : GccBlocks) (bs : Bytes) (blocks' : GccBlocks) : Prop
  | none (same : blocks'.network = blocks.network)
      (other : ∀ x, readAll fuel (blocks.withNetwork x) bs = some (blocks'.withNetwork x))
  | last {front body back : Bytes} {network : ClientNetworkData} (place : bs = front ++ (body ++ back))
      (decoded : ClientNetworkData.decode.run' body = some network) (isNetwork : blocks'.network = some network)
      (exchange : ∀ body' network', body'.length = body.length → ClientNetworkData.decode.run' body' = some network' →
        ∀ x, readAll fuel (blocks.withNetwork x) (front ++ (body' ++ back)) =
          some (blocks'.withNetwork (some network')))

theorem exchange_of_readAll : ∀ {fuel : Nat} {blocks : GccBlocks} {bs : Bytes} {blocks' : GccBlocks},
    readAll fuel blocks bs = some blocks' → Exchange fuel blocks bs blocks'
  | fuel, blocks, [], blocks', h => by
    cases fuel <;> cases h <;> exact .none rfl fun x => rfl
  | 0, blocks, b :: bs, blocks', h => by cases h
  | fuel + 1, blocks, b :: bs, blocks', h => by
    simp only [readAll, Option.bind_eq_some_iff, Prod.exists] at h
    obtain ⟨type, body, rest, hraw, next, hadd, hrest⟩ := h
    obtain ⟨head, hhead, hbs, hraw'⟩ := UserDataHeader.decodeRaw_run hraw
    rw [hbs]
    have hcons : ∀ {body' rest' : Bytes} {blocks₁ next' : GccBlocks}, body'.length = body.length →
        blocks₁.add type body' = some next' →
        readAll (fuel + 1) blocks₁ (head ++ (body' ++ rest')) = readAll fuel next' rest' := by
      intro body' rest' blocks₁ next' hlen hadd
      rw [readAll_cons (by simp [hhead]), hraw' body' rest' hlen]
      simp only [Option.bind_some, hadd]
    by_cases htype : type = 0xC003
    · subst htype
      obtain ⟨network, hnetwork, rfl⟩ := Option.map_eq_some_iff.1 hadd
      -- a later network block is exchanged as it was; without one, this is the last
      cases exchange_of_readAll hrest with
      | none same other =>
        refine .last rfl hnetwork same fun body' network' hlen hdecoded x => ?_
        have hadd' : (blocks.withNetwork x).add 0xC003 body' = some (blocks.withNetwork (some network')) := by
          rw [add_network, hdecoded]
          rfl
        rw [hcons hlen hadd']
        exact other (some network')
      | @last front body₀ back network₀ place decoded isNetwork exchange =>
        have hplace : head ++ (body ++ rest) = head ++ (body ++ front) ++ (body₀ ++ back) := by simp [place]
        refine .last hplace decoded isNetwork fun body' network' hlen hdecoded x => ?_
        have hadd' : (blocks.withNetwork x).add 0xC003 body = some (blocks.withNetwork (some network)) := by
          rw [add_network, hnetwork]
          rfl
        rw [List.append_assoc, List.append_assoc, hcons rfl hadd']
        exact exchange body' network' hlen hdecoded (some network)
    · obtain ⟨hsame, hother⟩ := add_other htype hadd
      cases exchange_of_readAll hrest with
      | none same other =>
        refine .none (same.trans hsame) fun x => ?_
        rw [hcons rfl (hother x)]
        exact other x
      | @last front body₀ back network₀ place decoded isNetwork exchange =>
        have hplace : head ++ (body ++ rest) = head ++ (body ++ front) ++ (body₀ ++ back) := by simp [place]
        refine .last hplace decoded isNetwork fun body' network' hlen hdecoded x => ?_
        rw [List.append_assoc, List.append_assoc, hcons rfl (hother x)]
        exact exchange body' network' hlen hdecoded x

end GccBlocks

namespace ConnectInitial

structure IsWith (ci' ci : ConnectInitial) (channels : List ChannelDef) : Prop where
  header : ci'.toConnectHeader = ci.toConnectHeader
  blocks : ci'.conferenceCreateRequest.gccBlocks =
    { ci.conferenceCreateRequest.gccBlocks with network := some ⟨channels⟩ }

/-- The channels stand in the data between `front` and `back`, and as many others put there are read in their place. -/
structure Layout (data : Bytes) (ci : ConnectInitial) (front : Bytes) (channels : List ChannelDef) (back : Bytes) :
    Prop where
  place : data = front ++ (channels.flatMap ChannelDef.encode ++ back)
  valid : ∀ c ∈ channels, c.Valid
  exchange : ∀ channels' : List ChannelDef, channels'.length = channels.length → (∀ c ∈ channels', c.Valid) →
    ∃ ci', decode (front ++ (channels'.flatMap ChannelDef.encode ++ back)) = some ci' ∧ ci'.IsWith ci channels'

theorem decode_layout {data : Bytes} {ci : ConnectInitial} {channels : List ChannelDef} (h : decode data = some ci)
    (hchannels : ci.channelNames = some channels) : ∃ front back, Layout data ci front channels back := by
  simp only [decode, Option.bind_eq_bind, Option.bind_eq_some_iff, Prod.exists, ClientGccBlocks.decode] at h
  obtain ⟨header, bs, hheader, blocks, ⟨read, hread, hfinish⟩, request, hnew, hci⟩ := h
  cases hci
  obtain ⟨taken, rfl, htaken⟩ := Local.taken hheader
  obtain ⟨hsmall, rfl⟩ : ∃ h, request = ⟨blocks, h⟩ := by
    unfold ConferenceCreateRequest.new at hnew
    split at hnew <;> cases hnew
    exact ⟨_, rfl⟩
  obtain ⟨core, hcore, security, hsecurity, rfl⟩ : ∃ core, read.core = some core ∧ ∃ security,
      read.security = some security ∧ blocks = { read with core, security } := by
    simp only [GccBlocks.finish, Option.bind_eq_bind, Option.bind_eq_some_iff] at hfinish
    obtain ⟨core, hcore, security, hsecurity, h⟩ := hfinish
    exact ⟨core, hcore, security, hsecurity, (Option.some_inj.1 h).symm⟩
  obtain ⟨network, hnetwork, rfl⟩ := Option.map_eq_some_iff.1 hchannels
  have hnetwork : read.network = some network := hnetwork
  cases GccBlocks.exchange_of_readAll hread with
  | none same other =>
    rw [hnetwork] at same
    cases same
  | @last front body back last place decoded isNetwork exchange =>
    obtain rfl : network = last := Option.some_inj.1 (hnetwork.symm.trans isNetwork)
    obtain ⟨hmost, hvalid, tail, rfl⟩ := ClientNetworkData.decode_iff.1 decoded
    refine ⟨taken ++ (front ++ leBytes 4 network.channels.length), tail ++ back, ?_, hvalid, ?_⟩
    · rw [place]
      simp [ClientNetworkData.encode]
    · intro channels' hlength hvalid'
      let network' : ClientNetworkData := ⟨channels'⟩
      have hdecoded : ClientNetworkData.decode.run' (network'.encode ++ tail) = some network' :=
        ClientNetworkData.decode_iff.2 ⟨hlength.trans_le hmost, hvalid', tail, rfl⟩
      have hsame : (network'.encode ++ tail).length = (network.encode ++ tail).length := by
        rw [List.length_append, List.length_append, ClientNetworkData.length_encode hvalid,
          ClientNetworkData.length_encode hvalid', hlength]
      have hread' := exchange _ _ hsame hdecoded none
      have hbs : (front ++ (network'.encode ++ tail ++ back)).length = bs.length := by
        rw [place]
        simp only [List.length_append] at hsame ⊢
        omega
      have hdata : taken ++ (front ++ leBytes 4 network.channels.length) ++
          (channels'.flatMap ChannelDef.encode ++ (tail ++ back)) =
          taken ++ (front ++ (network'.encode ++ tail ++ back)) := by
        simp [network', ClientNetworkData.encode, hlength]
      have hblocks : ClientGccBlocks.decode (front ++ (network'.encode ++ tail ++ back)) =
          some { read with core, security, network := some network' } := by
        unfold ClientGccBlocks.decode
        rw [hbs]
        refine Option.bind_eq_some_iff.2 ⟨_, hread', ?_⟩
        simp [GccBlocks.finish, GccBlocks.withNetwork, hcore, hsecurity]
      -- as many channels take as much room
      have hsmall' : ClientGccBlocks.size { read with core, security, network := some network' } ≤ 0xFFFF - 12 := by
        have hsize : ClientGccBlocks.size { read with core, security, network := some network' } =
            ClientGccBlocks.size { read with core, security } := by
          simp [ClientGccBlocks.size, hnetwork, network', hlength]
        exact hsize ▸ hsmall
      refine ⟨{ header with conferenceCreateRequest := ⟨_, hsmall'⟩ }, ?_, rfl, rfl⟩
      rw [hdata]
      simp only [decode, htaken _ hbs, hblocks, Option.bind_eq_bind, Option.bind_some, ConferenceCreateRequest.new,
        dif_pos hsmall']
      rfl

end ConnectInitial

theorem x224Data_layout {unit data : Bytes} (h : x224Data unit = some data) :
    ∃ head trail, unit = head ++ (data ++ trail) ∧ ∀ data' : Bytes, data'.length = data.length →
      x224Data (head ++ (data' ++ trail)) = some data' := by
  obtain ⟨trail, hrun⟩ := run'_eq_some.1 h
  simp only [StateT.run_bind, Option.bind_eq_bind, Option.bind_eq_some_iff, Prod.exists] at hrun
  obtain ⟨size, bs, hsize, hslice⟩ := hrun
  obtain ⟨head, rfl, hhead⟩ := Local.taken hsize
  obtain ⟨hlength, rfl⟩ := slice_run_eq_some.1 hslice
  refine ⟨head, trail, rfl, fun data' hsame => run'_eq_some.2 ⟨trail, ?_⟩⟩
  rw [StateT.run_bind, hhead (data' ++ trail) (by simp [hsame])]
  exact slice_append (hsame.trans hlength)

end WebAccess.Wire
