/-
`scan/route.rs`: finds the clipboard channel in the MCS connection sequence and lifts its PDUs out
of the stream. The decoders of the Connect Initial and the Connect Response are parameters: they
are functions of the X.224 user data and nothing here depends on how they read it.
-/
import WebAccess.Wire.Mcs
import WebAccess.Wire.Cliprdr

namespace WebAccess.Scan

open Codec Wire

/-- `CLIPRDR` -/
def cliprdrName : Text := ['c', 'l', 'i', 'p', 'r', 'd', 'r']

def maxPdu : Nat := 64 * 2 ^ 20

/-- Why the clipboard channel is out of step: the texts of `RouteError::OutOfStep`. -/
inductive OutOfStep
  | decode
  | encode
  | pduOf (length : Nat)
  | firstBeforeLast
  | noFirst
  | longer
  | shorter

inductive RouteError
  | compressed
  | outOfStep (why : OutOfStep)
  | noChannel

/-- `Whole`: a PDU and every unit that carried it. -/
structure Whole where
  pdu : Bytes
  units : List Bytes
  deriving DecidableEq

inductive Routed
  | pass
  | replace (unit : Bytes)
  | clip (whole : Option Whole)

/-! ## Putting chunks together -/

structure Dechunker where
  pdu : Bytes := []
  length : Nat := 0
  units : List Bytes := []

def Dechunker.started (d : Dechunker) (length flags : Nat) : Dechunker :=
  if hasBits flags flagFirst then { d with length, pdu := [] } else d

def Dechunker.add (d : Dechunker) (payload unit : Bytes) : Dechunker :=
  { d with pdu := d.pdu ++ payload, units := d.units ++ [unit] }

/-- `Dechunker::push`, for any limit on the length of a PDU: a whole PDU when this chunk ends one. -/
def Dechunker.pushUpTo (limit : Option Nat) (d : Dechunker) (userData unit : Bytes) :
    Except RouteError (Option Whole × Dechunker) :=
  match channelPduHeader.run userData with
  | none => .error (.outOfStep .decode)
  | some ((length, flags), payload) =>
    if hasBits flags packetCompressed then .error .compressed
    else if limit.any (· < length) then .error (.outOfStep (.pduOf length))
    else if hasBits flags flagFirst && !d.units.isEmpty then .error (.outOfStep .firstBeforeLast)
    else if !hasBits flags flagFirst && d.units.isEmpty then .error (.outOfStep .noFirst)
    else
      let d' := (d.started length flags).add payload unit
      if d'.length < d'.pdu.length then .error (.outOfStep .longer)
      else if !hasBits flags flagLast then .ok (none, d')
      else if d'.pdu.length ≠ d'.length then .error (.outOfStep .shorter)
      else .ok (some ⟨d'.pdu, d'.units⟩, { d' with pdu := [], units := [] })

/-- `push`: a chunk is put to what has come; its last one gives the PDU. -/
def Dechunker.push (d : Dechunker) (userData unit : Bytes) : Except RouteError (Option Whole × Dechunker) :=
  d.pushUpTo (some maxPdu) userData unit

variable {unit : Bytes}

variable {limit : Option Nat} {d d' : Dechunker} {userData : Bytes} {whole : Option Whole}

theorem Dechunker.pushUpTo_eq_ok (h : d.pushUpTo limit userData unit = .ok (whole, d')) :
    ∃ length flags payload, channelPduHeader.run userData = some ((length, flags), payload) ∧
      hasBits flags packetCompressed = false ∧ limit.any (· < length) = false ∧
      hasBits flags flagFirst = d.units.isEmpty ∧
      ((d.started length flags).add payload unit).pdu.length ≤ (d.started length flags).length ∧
      (hasBits flags flagLast = false ∧ whole = none ∧ d' = (d.started length flags).add payload unit ∨
        hasBits flags flagLast = true ∧
          ((d.started length flags).add payload unit).pdu.length = (d.started length flags).length ∧
          whole = some ⟨((d.started length flags).add payload unit).pdu, d.units ++ [unit]⟩ ∧
          d' = { d.started length flags with pdu := [], units := [] }) := by
  have hunits : ∀ length flags, (d.started length flags).units = d.units := by
    intro length flags
    unfold started
    split <;> rfl
  unfold pushUpTo at h
  split at h
  · cases h
  rename_i length flags payload hhead
  split at h
  · cases h
  rename_i hcomp
  split at h
  · cases h
  rename_i hlimit
  split at h
  · cases h
  rename_i hfirst
  split at h
  · cases h
  rename_i hnext
  simp only at h
  split at h
  · cases h
  rename_i hlong
  have hstart : hasBits flags flagFirst = d.units.isEmpty := by
    cases hb : hasBits flags flagFirst <;> cases hu : d.units.isEmpty <;> simp_all
  refine ⟨length, flags, payload, hhead, by simpa using hcomp, by simpa using hlimit, hstart,
    Nat.not_lt.1 hlong, ?_⟩
  split at h
  · rename_i hlast
    cases h
    exact .inl ⟨by simpa using hlast, rfl, rfl⟩
  · rename_i hlast
    split at h
    · cases h
    · rename_i hlen
      cases h
      exact .inr ⟨by simpa using hlast, Decidable.not_not.1 hlen, by simp [add, hunits], rfl⟩

theorem Dechunker.units_pushUpTo (h : d.pushUpTo limit userData unit = .ok (whole, d')) :
    (whole.map Whole.units).getD [] ++ d'.units = d.units ++ [unit] := by
  obtain ⟨length, flags, payload, -, -, -, -, -, ⟨-, rfl, rfl⟩ | ⟨-, -, rfl, rfl⟩⟩ := pushUpTo_eq_ok h
  · simp only [started, add, Option.map_none, Option.getD_none, List.nil_append]
    split <;> rfl
  · simp

/-! ## The router -/

/-- The decoders of the two connection PDUs: the channel names of a Connect Initial that has a
channel list, each eight bytes with a NUL at the end, and the channel ids of a Connect Response. -/
structure ConnectDecoders where
  channelNames : Bytes → Option (List Bytes)
  channelIds : Bytes → Option (List UInt16)

/-- `ChannelName::as_str` -/
def channelNameStr (name : Bytes) : Option Text :=
  if name.all (· < 0x80) then some ((name.takeWhile (· ≠ 0)).map fun b => Char.ofNat b.toNat) else none

/-- `Route`: what is known of the channels, and the PDUs under way. -/
structure Route where
  names : Option (List Text) := none
  cliprdr : Option Nat := none
  userChannel : Option Nat := none
  serverInitiator : Option Nat := none
  fromClient : Dechunker := {}
  fromServer : Dechunker := {}

def compressOptions : Nat := 0x0080_0000 ||| 0x0040_0000

/-- Where `name` first stands in `unit`. -/
def position (name : Bytes) : Bytes → Option Nat
  | [] => if name.isEmpty then some 0 else none
  | b :: rest => if name.isPrefixOf (b :: rest) then some 0 else (position name rest).map (· + 1)

def cliprdrField : Bytes := [0x63, 0x6C, 0x69, 0x70, 0x72, 0x64, 0x72, 0]

/-- `no_compression`: the options word after the only occurrence of the channel's name, with the
compression bits cleared. -/
def noCompression (unit : Bytes) : Option Bytes := do
  let at' := (← position cliprdrField unit) + cliprdrField.length
  if (position cliprdrField (unit.drop at')).isSome then none
  else if unit.length < at' + 4 then none
  else
    let options := leNat ((unit.drop at').take 4)
    some (unit.take at' ++ leBytes 4 (options &&& (2 ^ 32 - 1 - compressOptions)) ++ unit.drop (at' + 4))

/-- A copy that differs only in the options word after the channel's name, in which the compression
bits are cleared. -/
def ClearedCopy (unit copy : Bytes) : Prop :=
  ∃ before options after : Bytes, options.length = 4 ∧ unit = before ++ cliprdrField ++ options ++ after ∧
    copy = before ++ cliprdrField ++ leBytes 4 (leNat options &&& (2 ^ 32 - 1 - compressOptions)) ++ after

theorem position_eq_some {name : Bytes} : ∀ {unit : Bytes} {k : Nat}, position name unit = some k →
    ∃ before after, unit = before ++ name ++ after ∧ before.length = k
  | [], k, h => by
    unfold position at h
    split at h
    · rename_i hname
      cases h
      exact ⟨[], [], by simp [List.isEmpty_iff.1 hname], rfl⟩
    · cases h
  | b :: rest, k, h => by
    unfold position at h
    split at h
    · rename_i hprefix
      cases h
      obtain ⟨after, hafter⟩ := List.isPrefixOf_iff_prefix.1 hprefix
      exact ⟨[], after, by simp [hafter], rfl⟩
    · obtain ⟨j, hj, rfl⟩ := Option.map_eq_some_iff.1 h
      obtain ⟨before, after, rfl, rfl⟩ := position_eq_some hj
      exact ⟨b :: before, after, by simp, rfl⟩

theorem noCompression_cleared {copy : Bytes} (h : noCompression unit = some copy) : ClearedCopy unit copy := by
  obtain ⟨k, hk, h⟩ := Option.bind_eq_some_iff.1 h
  obtain ⟨before, after, rfl, rfl⟩ := position_eq_some hk
  simp only at h
  split at h
  · cases h
  split at h
  · cases h
  rename_i hlen
  have hstart : (before ++ cliprdrField ++ after).drop (before.length + cliprdrField.length) = after :=
    List.drop_left' (by simp)
  have hkeep : (before ++ cliprdrField ++ after).take (before.length + cliprdrField.length) = before ++ cliprdrField :=
    List.take_left' (by simp)
  have hrest : (before ++ cliprdrField ++ after).drop (before.length + cliprdrField.length + 4) = after.drop 4 := by
    rw [← List.drop_drop, hstart]
  rw [hstart, hkeep, hrest] at h
  cases h
  refine ⟨before, after.take 4, after.drop 4, ?_, by simp, rfl⟩
  simp only [List.length_append, List.length_take] at hlen ⊢
  omega

namespace Route

def readClient (dec : ConnectDecoders) (r : Route) (unit : Bytes) : Except RouteError (Routed × Route) :=
  if r.names.isNone then
    match (x224Data unit).bind dec.channelNames with
    | none => .ok (.pass, r)
    | some names =>
      let names := names.map fun n => (channelNameStr n).getD []
      let replaced := if names.contains cliprdrName then noCompression unit else none
      .ok ((replaced.map Routed.replace).getD .pass, { r with names := some names })
  else
    match McsMessage.ofUnit unit with
    | some (.sendDataRequest d) =>
      let r := { r with userChannel := some d.initiatorId }
      if some d.channelId = r.cliprdr then do
        let (whole, fromClient) ← r.fromClient.push d.userData unit
        pure (.clip whole, { r with fromClient })
      else .ok (.pass, r)
    | _ => .ok (.pass, r)

/-- The Connect Response a server unit is read as: only while the channel is not known and after
the names are. -/
def connectResponse (dec : ConnectDecoders) (r : Route) (unit : Bytes) : Option (List Text × List Nat) :=
  if r.cliprdr.isNone then do
    let names ← r.names
    let ids ← (x224Data unit).bind dec.channelIds
    pure (names, ids.map UInt16.toNat)
  else none

/-- The id at the position of the first channel named `cliprdr`. -/
def channelOf (names : List Text) (ids : List Nat) : Option Nat :=
  (names.findIdx? (· == cliprdrName)).bind fun i => ids[i]?

def readServer (dec : ConnectDecoders) (r : Route) (unit : Bytes) : Except RouteError (Routed × Route) :=
  match r.connectResponse dec unit with
  | some (names, ids) => .ok (.pass, { r with cliprdr := channelOf names ids })
  | none =>
    match McsMessage.ofUnit unit with
    | some (.sendDataIndication d) =>
      let r := { r with serverInitiator := some d.initiatorId }
      if some d.channelId = r.cliprdr then do
        let (whole, fromServer) ← r.fromServer.push d.userData unit
        pure (.clip whole, { r with fromServer })
      else .ok (.pass, r)
    | _ => .ok (.pass, r)

/-- A clipboard PDU of the proxy's own in units for one side; the source returns them joined. -/
def frame (encode : Nat → Nat → Bytes → Option (List Bytes)) (cliprdr initiator : Option Nat)
    (pdu : ClipboardPdu) : Except RouteError (List Bytes) :=
  match cliprdr, initiator with
  | some channel, some user =>
    match pdu.encode.bind (encode channel user) with
    | some units => .ok units
    | none => .error (.outOfStep .encode)
  | _, _ => .error .noChannel

def toServer (r : Route) (pdu : ClipboardPdu) : Except RouteError (List Bytes) :=
  frame clientEncodeSvcMessage r.cliprdr r.userChannel pdu

def toClient (r : Route) (pdu : ClipboardPdu) : Except RouteError (List Bytes) :=
  frame serverEncodeSvcMessage r.cliprdr r.serverInitiator pdu

end Route

end WebAccess.Scan
