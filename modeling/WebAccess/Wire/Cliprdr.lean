/-
The clipboard channel's PDUs as `ironrdp-cliprdr`'s `pdu` modules decode and encode them. Integers
of the wire are natural numbers; a decoder checks sizes and flags in the order the source does,
and an encoder fails where the source's length conversions fail.
-/
import WebAccess.Wire.Text

namespace WebAccess.Wire

open Codec

/-! ## The PDUs -/

/-- `FormatList`: the encoded formats are read only by `get_formats`. -/
structure FormatList where
  useAscii : Bool
  encodedFormats : Bytes
  deriving DecidableEq

inductive FormatListResponse
  | ok
  | fail
  deriving DecidableEq

structure FormatDataRequest where
  format : Nat
  deriving DecidableEq

structure FormatDataResponse where
  isError : Bool
  data : Bytes
  deriving DecidableEq

/-- `ClipboardProtocolVersion` -/
inductive ProtocolVersion
  | v1
  | v2
  | unknown (value : Nat)
  deriving DecidableEq

/-- `GeneralCapabilitySet`, the only kind of capability set there is -/
structure GeneralCapabilitySet where
  version : ProtocolVersion
  generalFlags : Nat
  deriving DecidableEq

structure Capabilities where
  capabilities : List GeneralCapabilitySet
  deriving DecidableEq

structure FileContentsRequest where
  streamId : Nat
  index : Int
  flags : Nat
  position : Nat
  requestedSize : Nat
  dataId : Option Nat
  deriving DecidableEq

structure FileContentsResponse where
  isError : Bool
  streamId : Nat
  data : Bytes
  deriving DecidableEq

inductive ClipboardPdu
  | monitorReady
  | formatList (list : FormatList)
  | formatListResponse (resp : FormatListResponse)
  | formatDataRequest (req : FormatDataRequest)
  | formatDataResponse (resp : FormatDataResponse)
  | temporaryDirectory (pathBuffer : Bytes)
  | capabilities (caps : Capabilities)
  | fileContentsRequest (req : FileContentsRequest)
  | fileContentsResponse (resp : FileContentsResponse)
  | lockData (id : Nat)
  | unlockData (id : Nat)
  deriving DecidableEq

/-! ## Flags -/

def responseOk : Nat := 0x0001
def responseFail : Nat := 0x0002
def asciiNames : Nat := 0x0004
def useLongFormatNames : Nat := 0x0000_0002
def canLockClipdata : Nat := 0x0000_0010
/-- `FileContentsFlags::SIZE` -/
def contentsSize : Nat := 0x0000_0001
/-- `FileContentsFlags::RANGE` -/
def contentsRange : Nat := 0x0000_0002

/-! ## Constructors and readers of the PDUs' parts -/

def FormatDataResponse.newData (data : Bytes) : FormatDataResponse := ⟨false, data⟩

def FormatDataResponse.newError : FormatDataResponse := ⟨true, []⟩

def FileContentsResponse.newSizeResponse (streamId size : Nat) : FileContentsResponse :=
  ⟨false, streamId, leBytes 8 size⟩

def FileContentsResponse.newDataResponse (streamId : Nat) (data : Bytes) : FileContentsResponse :=
  ⟨false, streamId, data⟩

def FileContentsResponse.newError (streamId : Nat) : FileContentsResponse := ⟨true, streamId, []⟩

def Capabilities.new (version : ProtocolVersion) (generalFlags : Nat) : Capabilities :=
  ⟨[⟨version, generalFlags⟩]⟩

def Capabilities.flags (caps : Capabilities) : Nat :=
  match caps.capabilities with
  | set :: _ => set.generalFlags
  | [] => 0

def Capabilities.version (caps : Capabilities) : ProtocolVersion :=
  match caps.capabilities with
  | set :: _ => set.version
  | [] => .v1

/-- `ClipboardFormat`: an empty name is no name. -/
structure ClipboardFormat where
  id : Nat
  name : Option Text

/-- `ClipboardFormat::new(id).with_name(name)` -/
def ClipboardFormat.named (id : Nat) (name : Text) : ClipboardFormat :=
  ⟨id, if name.isEmpty then none else some name⟩

/-- The loop of `get_formats` over long format names: an id and a NUL-terminated name, while at
least six bytes are left. Every round reads its id, so the length is enough fuel. -/
def longFormats (charset : CharacterSet) : Nat → Bytes → Option (List ClipboardFormat)
  | 0, _ => some []
  | fuel + 1, bs =>
    if bs.length < 6 then some []
    else do
      let (id, bs) ← (uintLe 4).run bs
      let (name, bs) ← (readString charset).run bs
      let formats ← longFormats charset fuel bs
      pure (ClipboardFormat.named id name :: formats)

/-- One short format name: an id and a name in 32 bytes. -/
def shortFormat (charset : CharacterSet) : Reader ClipboardFormat := do
  let id ← uintLe 4
  let buffer ← slice 32
  let (name, _) ← ((readString charset).run buffer : Option (Text × Bytes))
  pure (ClipboardFormat.named id name)

def FormatList.getFormats (list : FormatList) (useLongFormat : Bool) : Option (List ClipboardFormat) :=
  let charset := if list.useAscii then CharacterSet.ansi else .unicode
  if useLongFormat then longFormats charset list.encodedFormats.length list.encodedFormats
  else (repeatN (shortFormat charset) (list.encodedFormats.length / 36)).run' list.encodedFormats

/-- `FormatList::new_unicode(formats, true)` -/
def FormatList.newUnicodeLong (formats : List ClipboardFormat) : FormatList :=
  ⟨false, formats.flatMap fun f => leBytes 4 f.id ++ toUtf16Bytes (f.name.getD []) ++ [0, 0]⟩

/-- `FormatList::new_unicode(&[], use_long_format)`: without formats both layouts are empty. -/
def FormatList.newUnicodeEmpty : FormatList := ⟨false, []⟩

/-! ## Decoding -/

/-- `PartialHeader::decode`: the message flags and the data length. -/
def partialHeader : Reader (Nat × Nat) := do
  let flags ← uintLe 2
  let length ← uintLe 4
  pure (flags, length)

def FormatList.decode : Reader FormatList := do
  let (flags, length) ← partialHeader
  let encodedFormats ← slice length
  pure ⟨hasBits flags asciiNames, encodedFormats⟩

def FormatListResponse.decode : Reader FormatListResponse := do
  let (flags, _) ← partialHeader
  if flags = responseOk then pure .ok
  else if flags = responseFail then pure .fail
  else failure

def FormatDataRequest.decode : Reader FormatDataRequest := do
  let _ ← partialHeader
  let format ← uintLe 4
  pure ⟨format⟩

def FormatDataResponse.decode : Reader FormatDataResponse := do
  let (flags, length) ← partialHeader
  let data ← slice length
  pure ⟨hasBits flags responseFail, data⟩

/-- `ClientTemporaryDirectory::decode` -/
def temporaryDirectoryPath : Reader Bytes := do
  let _ ← partialHeader
  slice 520

/-- `ClipboardProtocolVersion::from(u32)` -/
def ProtocolVersion.ofNat : Nat → ProtocolVersion
  | 1 => .v1
  | 2 => .v2
  | value => .unknown value

/-- `CapabilitySet::decode` -/
def capabilitySet : Reader GeneralCapabilitySet := do
  let capsType ← uintLe 2
  let _ ← uintLe 2
  require (capsType == 1)
  let version ← uintLe 4
  let generalFlags ← uintLe 4
  pure ⟨.ofNat version, generalFlags⟩

def Capabilities.decode : Reader Capabilities := do
  let _ ← partialHeader
  let count ← uintLe 2
  let _ ← slice 2
  let capabilities ← repeatN capabilitySet count
  pure ⟨capabilities⟩

/-- The signed reading of a 32-bit number. -/
def toI32 (n : Nat) : Int := if n < 2 ^ 31 then n else (n : Int) - 2 ^ 32

/-- `FileContentsRequest::decode`: a request is for a size or for a range and not both, its index
is not negative, and one for a size asks for eight bytes at position zero. -/
def FileContentsRequest.decode : Reader FileContentsRequest := do
  let (_, length) ← partialHeader
  let streamId ← uintLe 4
  let index ← toI32 <$> uintLe 4
  let flags ← uintLe 4
  let positionLo ← uintLe 4
  let positionHi ← uintLe 4
  let position := positionLo + 2 ^ 32 * positionHi
  let requestedSize ← uintLe 4
  let dataId ← if 24 < length then some <$> uintLe 4 else pure none
  require (decide (0 ≤ index))
  require (hasBits flags contentsSize != hasBits flags contentsRange)
  require (!hasBits flags contentsSize || (requestedSize == 8 && position == 0))
  pure ⟨streamId, index, flags, position, requestedSize, dataId⟩

def FileContentsResponse.decode : Reader FileContentsResponse := do
  let (flags, length) ← partialHeader
  ensure length
  require (decide (4 ≤ length))
  let streamId ← uintLe 4
  let data ← slice (length - 4)
  pure ⟨hasBits flags responseFail, streamId, data⟩

/-- `LockDataId::decode` -/
def lockDataId : Reader Nat := do
  let _ ← partialHeader
  uintLe 4

def ClipboardPdu.decode : Reader ClipboardPdu := do
  let msgType ← uintLe 2
  match msgType with
  | 0x0001 => do
    let _ ← partialHeader
    pure .monitorReady
  | 0x0002 => .formatList <$> FormatList.decode
  | 0x0003 => .formatListResponse <$> FormatListResponse.decode
  | 0x0004 => .formatDataRequest <$> FormatDataRequest.decode
  | 0x0005 => .formatDataResponse <$> FormatDataResponse.decode
  | 0x0006 => .temporaryDirectory <$> temporaryDirectoryPath
  | 0x0007 => .capabilities <$> Capabilities.decode
  | 0x0008 => .fileContentsRequest <$> FileContentsRequest.decode
  | 0x0009 => .fileContentsResponse <$> FileContentsResponse.decode
  | 0x000A => .lockData <$> lockDataId
  | 0x000B => .unlockData <$> lockDataId
  | _ => failure

def ClipboardPdu.ofBytes (bs : Bytes) : Option ClipboardPdu := ClipboardPdu.decode.run' bs

/-! ## Encoding -/

/-- `PartialHeader::encode`, after the conversion of the data length to 32 bits -/
def encodeHeader (length flags : Nat) : Option Bytes :=
  if length < 2 ^ 32 then some (leBytes 2 flags ++ leBytes 4 length) else none

/-- `u32::from(ClipboardProtocolVersion)` -/
def ProtocolVersion.toNat : ProtocolVersion → Nat
  | .v1 => 1
  | .v2 => 2
  | .unknown value => value

def GeneralCapabilitySet.encode (set : GeneralCapabilitySet) : Bytes :=
  leBytes 2 1 ++ leBytes 2 12 ++ leBytes 4 set.version.toNat ++ leBytes 4 set.generalFlags

def Capabilities.encode (caps : Capabilities) : Option Bytes := do
  let header ← encodeHeader (4 + 12 * caps.capabilities.length) 0
  if caps.capabilities.length < 2 ^ 16 then
    pure (header ++ leBytes 2 caps.capabilities.length ++ [0, 0] ++
      caps.capabilities.flatMap GeneralCapabilitySet.encode)
  else none

def FileContentsRequest.encode (req : FileContentsRequest) : Option Bytes := do
  let header ← encodeHeader (24 + if req.dataId.isSome then 4 else 0) 0
  pure (header ++ leBytes 4 req.streamId ++ leBytes 4 (req.index % 2 ^ 32).toNat ++
    leBytes 4 req.flags ++ leBytes 4 (req.position % 2 ^ 32) ++ leBytes 4 (req.position / 2 ^ 32) ++
    leBytes 4 req.requestedSize ++ (req.dataId.map (leBytes 4)).getD [])

def responseFlags (isError : Bool) : Nat := if isError then responseFail else responseOk

/-- `ClipboardPdu::encode`: the message type, the header and the data -/
def ClipboardPdu.encode : ClipboardPdu → Option Bytes
  | .monitorReady => (leBytes 2 1 ++ ·) <$> encodeHeader 0 0
  | .formatList l => do
    let header ← encodeHeader l.encodedFormats.length (if l.useAscii then asciiNames else 0)
    pure (leBytes 2 2 ++ header ++ l.encodedFormats)
  | .formatListResponse r =>
    (leBytes 2 3 ++ ·) <$> encodeHeader 0 (match r with | .ok => responseOk | .fail => responseFail)
  | .formatDataRequest r => do
    let header ← encodeHeader 4 0
    pure (leBytes 2 4 ++ header ++ leBytes 4 r.format)
  | .formatDataResponse r => do
    let header ← encodeHeader r.data.length (responseFlags r.isError)
    pure (leBytes 2 5 ++ header ++ r.data)
  | .temporaryDirectory path => do
    let header ← encodeHeader 520 0
    pure (leBytes 2 6 ++ header ++ path)
  | .capabilities c => (leBytes 2 7 ++ ·) <$> c.encode
  | .fileContentsRequest r => (leBytes 2 8 ++ ·) <$> r.encode
  | .fileContentsResponse r => do
    let header ← encodeHeader (4 + r.data.length) (responseFlags r.isError)
    pure (leBytes 2 9 ++ header ++ leBytes 4 r.streamId ++ r.data)
  | .lockData id => do
    let header ← encodeHeader 4 0
    pure (leBytes 2 10 ++ header ++ leBytes 4 id)
  | .unlockData id => do
    let header ← encodeHeader 4 0
    pure (leBytes 2 11 ++ header ++ leBytes 4 id)

end WebAccess.Wire
