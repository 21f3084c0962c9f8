/-
Joining chunks (`Dechunker` and `Route` of `scan/route.rs`). A direction's chunks are joined exactly
when they are PDUs one after the other, each cut into chunks with the right flags and lengths, and at
the end perhaps one that is not complete: the PDUs come out at their last chunks, with the units that
carried them. The two directions and all other traffic do not matter to each other. What is held of
an incomplete PDU is bounded as long as every chunk brings it on; chunks of no bytes do not, and any
number of them is kept.
-/
import WebAccess.Scan.Chunks

namespace WebAccess.Scan

open Codec Wire

/-! ## Chunks -/

/-- A chunk of the channel: the user data, and the unit that carries it. -/
structure Chunk where
  userData : Bytes
  unit : Bytes
  deriving DecidableEq

namespace Chunk

def header? (c : Chunk) : Option ((Nat × Nat) × Bytes) := channelPduHeader.run c.userData

/-- The length its header declares. -/
def length (c : Chunk) : Nat := (c.header?.map (·.1.1)).getD 0

def flags (c : Chunk) : Nat := (c.header?.map (·.1.2)).getD 0

def payload (c : Chunk) : Bytes := (c.header?.map (·.2)).getD []

def first (c : Chunk) : Bool := hasBits c.flags flagFirst

def last (c : Chunk) : Bool := hasBits c.flags flagLast

structure Plain (c : Chunk) : Prop where
  decoded : c.header?.isSome = true
  uncompressed : hasBits c.flags packetCompressed = false
  bounded : c.length ≤ maxPdu

theorem Plain.header {c : Chunk} (h : c.Plain) :
    channelPduHeader.run c.userData = some ((c.length, c.flags), c.payload) := by
  obtain ⟨⟨⟨length, flags⟩, payload⟩, hheader⟩ := Option.isSome_iff_exists.1 h.decoded
  have hheader' : channelPduHeader.run c.userData = some ((length, flags), payload) := hheader
  simp only [Chunk.length, Chunk.flags, Chunk.payload, hheader, Option.map_some, Option.getD_some, hheader']

end Chunk

/-- The first chunk starts the PDU, and no other does. -/
def Opens (cs : List Chunk) : Prop := ∃ c rest, cs = c :: rest ∧ c.first = true ∧ ∀ x ∈ rest, x.first = false

/-- The last chunk ends it, and no other does. -/
def Closes (cs : List Chunk) : Prop := ∃ init z, cs = init ++ [z] ∧ z.last = true ∧ ∀ x ∈ init, x.last = false

structure IsCut (pdu : Bytes) (cs : List Chunk) : Prop where
  plain : ∀ c ∈ cs, c.Plain
  opens : Opens cs
  closes : Closes cs
  announced : ∀ c, cs.head? = some c → c.length = pdu.length
  pieces : cs.flatMap Chunk.payload = pdu

/-- The beginning of a PDU: no more bytes than announced. -/
structure IsBegun (cs : List Chunk) : Prop where
  plain : ∀ c ∈ cs, c.Plain
  opens : Opens cs
  unended : ∀ c ∈ cs, c.last = false
  room : ∀ c, cs.head? = some c → (cs.flatMap Chunk.payload).length ≤ c.length

def comesOut (pdu : Bytes) (cs : List Chunk) : List (Option Whole) :=
  List.replicate (cs.length - 1) none ++ [some ⟨pdu, cs.map Chunk.unit⟩]

/-- The chunks of a direction are PDUs and perhaps the beginning of one, and this comes of each. -/
def Joins (cs : List Chunk) (outs : List (Option Whole)) (rest : List Chunk) : Prop :=
  ∃ pdus : List (Bytes × List Chunk), (∀ p ∈ pdus, IsCut p.1 p.2) ∧ (rest = [] ∨ IsBegun rest) ∧
    cs = pdus.flatMap Prod.snd ++ rest ∧
    outs = pdus.flatMap (fun p => comesOut p.1 p.2) ++ List.replicate rest.length none

variable {rest cs : List Chunk} {c : Chunk} {channel : Nat} {side : Side}

theorem opens_snoc : Opens (rest ++ [c]) ↔ rest = [] ∧ c.first = true ∨ Opens rest ∧ c.first = false := by
  constructor
  · rintro ⟨a, tail, heq, ha, htail⟩
    rcases rest with _ | ⟨b, rest⟩
    · obtain ⟨rfl, rfl⟩ := List.cons.inj heq
      exact .inl ⟨rfl, ha⟩
    · obtain ⟨rfl, rfl⟩ := List.cons.inj heq
      refine .inr ⟨⟨b, rest, rfl, ha, fun x hx => htail x (List.mem_append_left _ hx)⟩, htail c (by simp)⟩
  · rintro (⟨rfl, hc⟩ | ⟨⟨a, tail, rfl, ha, htail⟩, hc⟩)
    · exact ⟨c, [], rfl, hc, by simp⟩
    · refine ⟨a, tail ++ [c], rfl, ha, fun x hx => ?_⟩
      rcases Transition.mem_snoc.1 hx with hx | rfl
      · exact htail x hx
      · exact hc

theorem Opens.ne_nil (h : Opens cs) : cs ≠ [] := by
  obtain ⟨c, rest, rfl, -⟩ := h
  simp

theorem first_of_opens (h : Opens (rest ++ [c])) : c.first = rest.isEmpty := by
  rcases opens_snoc.1 h with ⟨rfl, hc⟩ | ⟨hrest, hc⟩
  · simpa using hc
  · rw [hc, eq_comm, List.isEmpty_eq_false_iff]
    exact hrest.ne_nil

theorem head?_snoc {x : Chunk} (h : rest.head? = some x) : (rest ++ [c]).head? = some x := by
  rw [List.head?_append, h]
  rfl

variable {init : List Chunk} {z : Chunk} {unit : Bytes}

theorem IsCut.begun {pdu : Bytes} (h : IsCut pdu (init ++ [z])) : init = [] ∨ IsBegun init := by
  rcases opens_snoc.1 h.opens with ⟨rfl, -⟩ | ⟨hopens, -⟩
  · exact .inl rfl
  · refine .inr ⟨fun c hc => h.plain c (List.mem_append_left _ hc), hopens, fun c hc => ?_, fun c hc => ?_⟩
    · obtain ⟨init', z', heq, -, hinit⟩ := h.closes
      obtain ⟨rfl, -⟩ := List.append_inj' heq rfl
      exact hinit c hc
    · rw [h.announced c (head?_snoc hc), ← h.pieces, List.flatMap_append, List.length_append]
      exact Nat.le_add_right _ _

theorem IsBegun.begun (h : IsBegun (init ++ [z])) : init = [] ∨ IsBegun init := by
  rcases opens_snoc.1 h.opens with ⟨rfl, -⟩ | ⟨hopens, -⟩
  · exact .inl rfl
  · refine .inr ⟨fun c hc => h.plain c (List.mem_append_left _ hc), hopens,
      fun c hc => h.unended c (List.mem_append_left _ hc), fun c hc => ?_⟩
    have hroom := h.room c (head?_snoc hc)
    rw [List.flatMap_append, List.length_append] at hroom
    omega

/-! ## One chunk -/

namespace Dechunker

/-- What is held: the pieces and the units of the chunks of an incomplete PDU, and its length. -/
structure Holds (d : Dechunker) (rest : List Chunk) : Prop where
  units : d.units = rest.map Chunk.unit
  pdu : d.pdu = rest.flatMap Chunk.payload
  length : ∀ c, rest.head? = some c → d.length = c.length

variable {d d' : Dechunker} {rest : List Chunk} {c : Chunk}

theorem Holds.isEmpty_units (h : d.Holds rest) : d.units.isEmpty = rest.isEmpty := by
  rw [h.units]
  cases rest <;> rfl

theorem Holds.add (h : d.Holds rest) (hfirst : c.first = rest.isEmpty) :
    ((d.started c.length c.flags).add c.payload c.unit).Holds (rest ++ [c]) := by
  cases rest with
  | nil =>
    have hbits : hasBits c.flags flagFirst = true := hfirst
    have hunits : d.units = [] := h.units
    exact ⟨by simp [started, Dechunker.add, hbits, hunits], by simp [started, Dechunker.add, hbits],
      by simp [started, Dechunker.add, hbits]⟩
  | cons a rest =>
    have hbits : hasBits c.flags flagFirst = false := hfirst
    have hsame : d.started c.length c.flags = d := by simp [started, hbits]
    rw [hsame]
    refine ⟨by simp [Dechunker.add, h.units], by simp [Dechunker.add, h.pdu], fun x hx => ?_⟩
    exact h.length x hx

theorem Holds.length_of_head (h : d.Holds rest) (hne : rest ≠ []) : ∃ c, rest.head? = some c ∧ d.length = c.length := by
  cases rest with
  | nil => exact absurd rfl hne
  | cons a rest => exact ⟨a, rfl, h.length a rfl⟩

theorem push_begun (h : d.Holds rest) (hbegun : IsBegun (rest ++ [c])) :
    ∃ d', d.push c.userData c.unit = .ok (none, d') ∧ d'.Holds (rest ++ [c]) := by
  have hplain := hbegun.plain c (by simp)
  have hfirst := first_of_opens hbegun.opens
  have hadd := h.add hfirst
  obtain ⟨a, ha, hlength⟩ := hadd.length_of_head (by simp)
  have hroom := hbegun.room a ha
  have hlast : hasBits c.flags flagLast = false := hbegun.unended c (by simp)
  have hbits : hasBits c.flags flagFirst = rest.isEmpty := hfirst
  refine ⟨_, ?_, hadd⟩
  have hlimit : ¬ maxPdu < c.length := Nat.not_lt.2 hplain.bounded
  have hlong : ¬ ((d.started c.length c.flags).add c.payload c.unit).length <
      ((d.started c.length c.flags).add c.payload c.unit).pdu.length := by
    rw [hadd.pdu, hlength]
    omega
  simp only [push, pushUpTo, hplain.header, hplain.uncompressed, hbits, h.isEmpty_units, hlast, Option.any_some]
  simp [hlimit, hlong]

variable {pdu : Bytes} {w : Option Whole}

theorem push_cut (h : d.Holds rest) (hcut : IsCut pdu (rest ++ [c])) :
    ∃ d', d.push c.userData c.unit = .ok (some ⟨pdu, (rest ++ [c]).map Chunk.unit⟩, d') ∧ d'.Holds [] := by
  have hplain := hcut.plain c (by simp)
  have hfirst := first_of_opens hcut.opens
  have hadd := h.add hfirst
  obtain ⟨a, ha, hlength⟩ := hadd.length_of_head (by simp)
  have hlast : hasBits c.flags flagLast = true := by
    obtain ⟨init, z, heq, hz, -⟩ := hcut.closes
    obtain ⟨-, hcz⟩ := List.append_inj' heq rfl
    rw [List.singleton_inj.1 hcz]
    exact hz
  have hbits : hasBits c.flags flagFirst = rest.isEmpty := hfirst
  have hlimit : ¬ maxPdu < c.length := Nat.not_lt.2 hplain.bounded
  have hpdu : ((d.started c.length c.flags).add c.payload c.unit).pdu = pdu := by rw [hadd.pdu, hcut.pieces]
  have hexact : ((d.started c.length c.flags).add c.payload c.unit).length = pdu.length :=
    hlength.trans (hcut.announced a ha)
  refine ⟨{ (d.started c.length c.flags).add c.payload c.unit with pdu := [], units := [] }, ?_, ⟨rfl, rfl, nofun⟩⟩
  simp only [push, pushUpTo, hplain.header, hplain.uncompressed, hbits, h.isEmpty_units, hlast, Option.any_some,
    hexact, hpdu, hadd.units]
  simp [hlimit]

theorem push_ok (h : d.Holds rest) (hrest : rest = [] ∨ IsBegun rest) (hpush : d.push c.userData c.unit = .ok (w, d')) :
    w = none ∧ IsBegun (rest ++ [c]) ∧ d'.Holds (rest ++ [c]) ∨
      ∃ pdu, w = some ⟨pdu, (rest ++ [c]).map Chunk.unit⟩ ∧ IsCut pdu (rest ++ [c]) ∧ d'.Holds [] := by
  obtain ⟨length, flags, payload, hheader, hcompressed, hlimit, hfirst, hroom, hcases⟩ := pushUpTo_eq_ok hpush
  have hheader' : c.header? = some ((length, flags), payload) := hheader
  obtain rfl : c.length = length := by simp [Chunk.length, hheader']
  obtain rfl : c.flags = flags := by simp [Chunk.flags, hheader']
  obtain rfl : c.payload = payload := by simp [Chunk.payload, hheader']
  rw [h.isEmpty_units] at hfirst
  have hadd := h.add hfirst
  obtain ⟨a, ha, hlength⟩ := hadd.length_of_head (by simp)
  have hbounded : c.length ≤ maxPdu := by simpa using hlimit
  have hplain : ∀ x ∈ rest ++ [c], x.Plain := by
    intro x hx
    rcases Transition.mem_snoc.1 hx with hx | rfl
    · rcases hrest with rfl | hrest
      · cases hx
      · exact hrest.plain x hx
    · exact ⟨by rw [hheader']; rfl, hcompressed, hbounded⟩
  have hopens : Opens (rest ++ [c]) := by
    rcases hrest with rfl | hrest
    · exact opens_snoc.2 (.inl ⟨rfl, hfirst⟩)
    · refine opens_snoc.2 (.inr ⟨hrest.opens, hfirst.trans ?_⟩)
      rw [List.isEmpty_eq_false_iff]
      exact hrest.opens.ne_nil
  have hunended : ∀ x ∈ rest, x.last = false := by
    rcases hrest with rfl | hrest
    · simp
    · exact hrest.unended
  have hlen : (d.started c.length c.flags).length = a.length := hlength
  rw [hadd.pdu, hlen] at hroom
  rcases hcases with ⟨hlast, rfl, rfl⟩ | ⟨hlast, hexact, hw, rfl⟩
  · refine .inl ⟨rfl, ⟨hplain, hopens, fun x hx => ?_, fun x hx => ?_⟩, hadd⟩
    · rcases Transition.mem_snoc.1 hx with hx | rfl
      · exact hunended x hx
      · exact hlast
    · obtain rfl := Option.some_inj.1 (ha.symm.trans hx)
      exact hroom
  · rw [hadd.pdu, hlen] at hexact
    refine .inr ⟨(rest ++ [c]).flatMap Chunk.payload, ?_, ⟨hplain, hopens, ⟨rest, c, rfl, hlast, hunended⟩,
      fun x hx => ?_, rfl⟩, ⟨rfl, rfl, nofun⟩⟩
    · rw [hw, hadd.pdu, h.units, List.map_append, List.map_singleton]
    · obtain rfl := Option.some_inj.1 (ha.symm.trans hx)
      exact hexact.symm

/-! ## Chunks one after the other -/

/-- The chunks of a direction, and what comes of each. -/
def pushAll (d : Dechunker) : List Chunk → Except RouteError (List (Option Whole) × Dechunker)
  | [] => .ok ([], d)
  | c :: cs => do
    let (w, m) ← d.push c.userData c.unit
    let (ws, d') ← m.pushAll cs
    pure (w :: ws, d')

variable {cs : List Chunk} {outs : List (Option Whole)}

theorem pushAll_cons :
    d.pushAll (c :: cs) = .ok (outs, d') ↔
      ∃ w m ws, d.push c.userData c.unit = .ok (w, m) ∧ m.pushAll cs = .ok (ws, d') ∧ outs = w :: ws := by
  constructor
  · intro h
    obtain ⟨⟨w, m⟩, hpush, h⟩ := bind_ok h
    obtain ⟨⟨ws, m'⟩, hrest, h⟩ := bind_ok h
    cases h
    exact ⟨w, m, ws, hpush, hrest, rfl⟩
  · rintro ⟨w, m, ws, hpush, hrest, rfl⟩
    exact bind_ok_iff.2 ⟨_, hpush, bind_ok_iff.2 ⟨_, hrest, rfl⟩⟩

theorem pushAll_append {m : Dechunker} {cs' : List Chunk} {ws ws' : List (Option Whole)}
    (h : d.pushAll cs = .ok (ws, m)) (h' : m.pushAll cs' = .ok (ws', d')) :
    d.pushAll (cs ++ cs') = .ok (ws ++ ws', d') := by
  induction cs generalizing d ws with
  | nil =>
    cases h
    exact h'
  | cons c cs ih =>
    obtain ⟨w, m', ws₁, hpush, hrest, rfl⟩ := pushAll_cons.1 h
    exact pushAll_cons.2 ⟨w, m', ws₁ ++ ws', hpush, ih hrest, rfl⟩

theorem pushAll_singleton (h : d.push c.userData c.unit = .ok (w, d')) :
    d.pushAll [c] = .ok ([w], d') := pushAll_cons.2 ⟨w, d', [], h, rfl, rfl⟩

theorem pushAll_begun (h : d.Holds []) (hbegun : cs = [] ∨ IsBegun cs) :
    ∃ d', d.pushAll cs = .ok (List.replicate cs.length none, d') ∧ d'.Holds cs := by
  induction cs using List.reverseRecOn with
  | nil => exact ⟨d, rfl, h⟩
  | append_singleton init c ih =>
    have hbegun := hbegun.resolve_left (by simp)
    obtain ⟨m, hm, hholds⟩ := ih hbegun.begun
    obtain ⟨d', hpush, hd'⟩ := push_begun hholds hbegun
    refine ⟨d', ?_, hd'⟩
    rw [List.length_append, List.length_singleton, List.replicate_succ']
    exact pushAll_append hm (pushAll_singleton hpush)

theorem pushAll_cut (h : d.Holds []) (hcut : IsCut pdu cs) :
    ∃ d', d.pushAll cs = .ok (comesOut pdu cs, d') ∧ d'.Holds [] := by
  obtain ⟨init, z, rfl, -, -⟩ := id hcut.closes
  obtain ⟨m, hm, hholds⟩ := pushAll_begun h hcut.begun
  obtain ⟨d', hpush, hd'⟩ := push_cut hholds hcut
  refine ⟨d', ?_, hd'⟩
  rw [comesOut, List.length_append, List.length_singleton, Nat.add_sub_cancel]
  exact pushAll_append hm (pushAll_singleton hpush)

theorem pushAll_of_joins (h : d.Holds []) (hjoins : Joins cs outs rest) :
    ∃ d', d.pushAll cs = .ok (outs, d') ∧ d'.Holds rest := by
  obtain ⟨pdus, hcuts, hrest, rfl, rfl⟩ := hjoins
  induction pdus generalizing d with
  | nil => exact pushAll_begun h hrest
  | cons p pdus ih =>
    obtain ⟨m, hm, hidle⟩ := pushAll_cut h (hcuts p List.mem_cons_self)
    obtain ⟨d', hd', hholds⟩ := ih hidle fun p hp => hcuts p (List.mem_cons_of_mem _ hp)
    refine ⟨d', ?_, hholds⟩
    rw [List.flatMap_cons, List.flatMap_cons, List.append_assoc, List.append_assoc]
    exact pushAll_append hm hd'

theorem joins_of_pushAll (h : d.Holds rest) (hrest : rest = [] ∨ IsBegun rest) (hpush : d.pushAll cs = .ok (outs, d')) :
    ∃ rest', Joins (rest ++ cs) (List.replicate rest.length none ++ outs) rest' ∧ d'.Holds rest' := by
  induction cs generalizing d rest outs with
  | nil =>
    cases hpush
    exact ⟨rest, ⟨[], by simp, hrest, by simp, by simp⟩, h⟩
  | cons c cs ih =>
    obtain ⟨w, m, ws, hc, hcs, rfl⟩ := pushAll_cons.1 hpush
    rcases push_ok h hrest hc with ⟨rfl, hbegun, hholds⟩ | ⟨pdu, rfl, hcut, hidle⟩
    · obtain ⟨rest', hjoins, hd'⟩ := ih hholds (.inr hbegun) hcs
      refine ⟨rest', ?_, hd'⟩
      simpa [List.replicate_succ'] using hjoins
    · obtain ⟨rest', ⟨pdus, hcuts, hrest', heq, hws⟩, hd'⟩ := ih hidle (.inl rfl) hcs
      refine ⟨rest', ⟨(pdu, rest ++ [c]) :: pdus, ?_, hrest', ?_, ?_⟩, hd'⟩
      · simpa using ⟨hcut, fun p hp hp' => hcuts (p, hp) hp'⟩
      · rw [List.flatMap_cons, List.append_assoc, ← heq]
        simp
      · rw [List.flatMap_cons, List.append_assoc, ← hws]
        simp [comesOut]

end Dechunker

/-! ## The router -/

/-- The names are known, and the id of the clipboard channel. -/
structure Route.Knows (r : Route) (channel : Nat) : Prop where
  names : r.names.isSome = true
  cliprdr : r.cliprdr = some channel

def chunkOn (channel : Nat) (side : Side) (unit : Bytes) : Option Chunk :=
  (sendDataOf side unit).bind fun d => if d.channelId = channel then some ⟨d.userData, unit⟩ else none

def Route.read (dec : ConnectDecoders) (r : Route) : Side → Bytes → Except RouteError (Routed × Route)
  | .client, unit => r.readClient dec unit
  | .server, unit => r.readServer dec unit

theorem chunkOn_eq_some (h : chunkOn channel side unit = some c) :
    c.unit = unit ∧ ∃ d, sendDataOf side unit = some d ∧ d.channelId = channel ∧ c.userData = d.userData := by
  obtain ⟨d, hd, h⟩ := Option.bind_eq_some_iff.1 h
  split at h
  · rename_i hchannel
    cases h
    exact ⟨rfl, d, hd, hchannel, rfl⟩
  · cases h

theorem chunkOn_eq_none {d : SendData} (h : chunkOn channel side unit = none) (hd : sendDataOf side unit = some d) :
    d.channelId ≠ channel := by
  intro hchannel
  simp [chunkOn, hd, hchannel] at h

namespace Route

variable {dec : ConnectDecoders} {r r' : Route} {channel : Nat} {side : Side} {unit : Bytes}

theorem Knows.named (hr : r.Knows channel) : r.names.isNone = false := by simpa using hr.names

theorem read_other (dec : ConnectDecoders) (hr : r.Knows channel) (h : chunkOn channel side unit = none) :
    ∃ r', r.read dec side unit = .ok (.pass, r') ∧ r'.dechunker = r.dechunker ∧ r'.Knows channel := by
  have hnames := hr.named
  have hresponse : r.connectResponse dec unit = none := by simp [connectResponse, hr.cliprdr]
  cases side
  all_goals
    simp only [read, readClient, readServer, hnames, hresponse, Bool.false_eq_true, if_false]
    split
    · rename_i d hd
      have hne := chunkOn_eq_none h (sendDataOf_eq_some.2 hd)
      refine ⟨_, if_neg ?_, by funext side; cases side <;> rfl, hr.names, hr.cliprdr⟩
      simpa [hr.cliprdr] using hne
    · exact ⟨r, rfl, rfl, hr⟩

theorem read_chunk (dec : ConnectDecoders) (hr : r.Knows channel) (h : chunkOn channel side unit = some c) :
    (∀ e, (r.dechunker side).push c.userData c.unit = .error e → r.read dec side unit = .error e) ∧
    ∀ w d', (r.dechunker side).push c.userData c.unit = .ok (w, d') → ∃ r', r.read dec side unit = .ok (.clip w, r') ∧
      r'.dechunker = Function.update r.dechunker side d' ∧ r'.Knows channel := by
  obtain ⟨rfl, d, hd, hchannel, hdata⟩ := chunkOn_eq_some h
  have hnames := hr.named
  have hto : some d.channelId = r.cliprdr := by rw [hr.cliprdr, hchannel]
  have hresponse : r.connectResponse dec c.unit = none := by simp [connectResponse, hr.cliprdr]
  have hof := sendDataOf_eq_some.1 hd
  rw [hdata]
  cases side
  all_goals
    simp only [Side.message] at hof
    simp only [read, readClient, readServer, hnames, hresponse, Bool.false_eq_true, if_false, hof, if_pos hto,
      dechunker]
    refine ⟨fun e he => ?_, fun w d' hpush => ?_⟩
    · rw [he]
      rfl
    · rw [hpush]
      exact ⟨_, rfl, by funext side; cases side <;> rfl, hr.names, hr.cliprdr⟩

/-- The traffic of both sides, in the order it is read, and where each unit goes. -/
def readAll (dec : ConnectDecoders) (r : Route) : List (Side × Bytes) → Except RouteError (List Routed × Route)
  | [] => .ok ([], r)
  | (side, unit) :: units => do
    let (routed, m) ← r.read dec side unit
    let (more, r') ← m.readAll dec units
    pure (routed :: more, r')

theorem readAll_cons {units : List (Side × Bytes)} {outs : List Routed} :
    r.readAll dec ((side, unit) :: units) = .ok (outs, r') ↔
      ∃ o m os, r.read dec side unit = .ok (o, m) ∧ m.readAll dec units = .ok (os, r') ∧ outs = o :: os := by
  constructor
  · intro h
    obtain ⟨⟨o, m⟩, hread, h⟩ := bind_ok h
    obtain ⟨⟨os, m'⟩, hrest, h⟩ := bind_ok h
    cases h
    exact ⟨o, m, os, hread, hrest, rfl⟩
  · rintro ⟨o, m, os, hread, hrest, rfl⟩
    exact bind_ok_iff.2 ⟨_, hread, bind_ok_iff.2 ⟨_, hrest, rfl⟩⟩

end Route

/-- The chunks of the channel among a side's units. -/
def chunksOf (channel : Nat) (side : Side) (units : List (Side × Bytes)) : List Chunk :=
  units.filterMap fun u => if u.1 = side then chunkOn channel u.1 u.2 else none

def clipsOf (side : Side) (units : List (Side × Bytes)) (outs : List Routed) : List (Option Whole) :=
  (units.zip outs).filterMap fun (u, o) => if u.1 = side then
    match o with
    | .clip w => some w
    | _ => none
  else none

def PassesOthers (channel : Nat) (units : List (Side × Bytes)) (outs : List Routed) : Prop :=
  units.length = outs.length ∧ ∀ p ∈ units.zip outs, chunkOn channel p.1.1 p.1.2 = none → p.2 = .pass

namespace Route

variable {dec : ConnectDecoders} {channel : Nat}

variable {r : Route} {units : List (Side × Bytes)}

theorem readAll_of_pushAll (dec : ConnectDecoders) {want : Side → List (Option Whole)} {d' : Side → Dechunker}
    (hr : r.Knows channel)
    (h : ∀ side, (r.dechunker side).pushAll (chunksOf channel side units) = .ok (want side, d' side)) :
    ∃ outs r', r.readAll dec units = .ok (outs, r') ∧ (∀ side, clipsOf side units outs = want side) ∧
      r'.dechunker = d' ∧ PassesOthers channel units outs := by
  induction units generalizing r want with
  | nil =>
    refine ⟨[], r, rfl, fun side => ?_, funext fun side => ?_, rfl, by simp⟩
    · exact (Prod.mk.inj (Except.ok.inj (h side))).1
    · exact (Prod.mk.inj (Except.ok.inj (h side))).2
  | cons u units ih =>
    obtain ⟨side, unit⟩ := u
    cases hc : chunkOn channel side unit with
    | none =>
      have hrest : ∀ s, chunksOf channel s ((side, unit) :: units) = chunksOf channel s units := by
        intro s
        simp [chunksOf, hc]
      obtain ⟨m, hread, hsame, hm⟩ := read_other dec hr hc
      have hbehind : ∀ s, (m.dechunker s).pushAll (chunksOf channel s units) = .ok (want s, d' s) := by
        intro s
        rw [hsame, ← hrest s]
        exact h s
      obtain ⟨outs, r', hall, hclips, hr', hpass⟩ := ih hm hbehind
      refine ⟨.pass :: outs, r', readAll_cons.2 ⟨_, m, outs, hread, hall, rfl⟩, fun s => ?_, hr', ?_, ?_⟩
      · simpa [clipsOf] using hclips s
      · simpa using hpass.1
      · intro p hp hnone
        rcases List.mem_cons.1 hp with rfl | hp
        · rfl
        · exact hpass.2 p hp hnone
    | some c =>
      have hself : chunksOf channel side ((side, unit) :: units) = c :: chunksOf channel side units := by
        simp [chunksOf, hc]
      have hother : ∀ s, s ≠ side → chunksOf channel s ((side, unit) :: units) = chunksOf channel s units := by
        intro s hs
        simp [chunksOf, Ne.symm hs]
      have hside := h side
      rw [hself] at hside
      obtain ⟨w, md, ws, hpush, hws, hwant⟩ := Dechunker.pushAll_cons.1 hside
      obtain ⟨m, hread, hupdate, hm⟩ := (read_chunk dec hr hc).2 w md hpush
      have hbehind : ∀ s, (m.dechunker s).pushAll (chunksOf channel s units) =
          .ok (Function.update want side ws s, d' s) := by
        intro s
        by_cases hs : s = side
        · subst hs
          rw [hupdate, Function.update_self, Function.update_self]
          exact hws
        · rw [hupdate, Function.update_of_ne hs, Function.update_of_ne hs, ← hother s hs]
          exact h s
      obtain ⟨outs, r', hall, hclips, hr', hpass⟩ := ih hm hbehind
      refine ⟨.clip w :: outs, r', readAll_cons.2 ⟨_, m, outs, hread, hall, rfl⟩, fun s => ?_, hr', ?_, ?_⟩
      · have hrest := hclips s
        by_cases hs : s = side
        · subst hs
          rw [Function.update_self] at hrest
          rw [hwant, ← hrest]
          simp [clipsOf]
        · rw [Function.update_of_ne hs] at hrest
          rw [← hrest]
          simp [clipsOf, Ne.symm hs]
      · simpa using hpass.1
      · intro p hp hnone
        rcases List.mem_cons.1 hp with rfl | hp
        · exact absurd (hc.symm.trans hnone) nofun
        · exact hpass.2 p hp hnone

theorem pushAll_of_readAll {r' : Route} {outs : List Routed} (hr : r.Knows channel)
    (h : r.readAll dec units = .ok (outs, r')) :
    ∀ side, ∃ ws, (r.dechunker side).pushAll (chunksOf channel side units) = .ok (ws, r'.dechunker side) := by
  induction units generalizing r outs with
  | nil =>
    cases h
    exact fun side => ⟨[], rfl⟩
  | cons u units ih =>
    obtain ⟨side, unit⟩ := u
    obtain ⟨o, m, os, hread, hall, rfl⟩ := readAll_cons.1 h
    intro s
    cases hc : chunkOn channel side unit with
    | none =>
      obtain ⟨m', hread', hsame, hm⟩ := read_other dec hr hc
      obtain ⟨rfl, rfl⟩ := Prod.mk.inj (Except.ok.inj (hread.symm.trans hread'))
      obtain ⟨ws, hws⟩ := ih hm hall s
      refine ⟨ws, ?_⟩
      rw [← hsame, ← hws]
      simp [chunksOf, hc]
    | some c =>
      obtain ⟨herror, hok⟩ := read_chunk dec hr hc
      rcases hpush : (r.dechunker side).push c.userData c.unit with e | ⟨w, d'⟩
      · exact absurd (hread.symm.trans (herror e hpush)) nofun
      · obtain ⟨m', hread', hupdate, hm⟩ := hok w d' hpush
        obtain ⟨-, rfl⟩ := Prod.mk.inj (Except.ok.inj (hread.symm.trans hread'))
        obtain ⟨ws, hws⟩ := ih hm hall s
        rw [hupdate] at hws
        by_cases hs : s = side
        · subst hs
          rw [Function.update_self] at hws
          refine ⟨w :: ws, ?_⟩
          have hself : chunksOf channel s ((s, unit) :: units) = c :: chunksOf channel s units := by
            simp [chunksOf, hc]
          rw [hself]
          exact Dechunker.pushAll_cons.2 ⟨w, d', ws, hpush, hws, rfl⟩
        · rw [Function.update_of_ne hs] at hws
          refine ⟨ws, ?_⟩
          rw [← hws]
          simp [chunksOf, Ne.symm hs]

end Route

/-- Dechunking inverts chunking. For any traffic of both sides behind a router that has found its
channel and holds nothing: where the chunks of each side are PDUs cut into chunks, one after the other,
and perhaps the beginning of one, each PDU is returned at its last chunk, with its units, and nothing
else is held of it; all that carries no chunk is passed on. And only such chunks are not refused. -/
theorem dechunking_inverts_chunking {dec : ConnectDecoders} {r : Route} {channel : Nat} (known : r.Knows channel)
    (idle : ∀ side, (r.dechunker side).Holds []) (units : List (Side × Bytes)) :
    (∀ (want : Side → List (Option Whole)) (rest : Side → List Chunk),
      (∀ side, Joins (chunksOf channel side units) (want side) (rest side)) →
      ∃ outs r', r.readAll dec units = .ok (outs, r') ∧ PassesOthers channel units outs ∧
        ∀ side, clipsOf side units outs = want side ∧ (r'.dechunker side).Holds (rest side)) ∧
    ∀ outs r', r.readAll dec units = .ok (outs, r') →
      ∀ side, ∃ want rest, Joins (chunksOf channel side units) want rest := by
  refine ⟨fun want rest hjoins => ?_, fun outs r' h side => ?_⟩
  · have hrun := fun side => Dechunker.pushAll_of_joins (idle side) (hjoins side)
    choose d' hpush hholds using hrun
    obtain ⟨outs, r', hall, hclips, hd', hpass⟩ := Route.readAll_of_pushAll dec known hpush
    refine ⟨outs, r', hall, hpass, fun side => ⟨hclips side, ?_⟩⟩
    rw [hd']
    exact hholds side
  · obtain ⟨ws, hws⟩ := Route.pushAll_of_readAll known h side
    obtain ⟨rest, hjoins, -⟩ := Dechunker.joins_of_pushAll (idle side) (.inl rfl) hws
    exact ⟨ws, rest, by simpa using hjoins⟩

def onChannel : Route := { names := some [cliprdrName], cliprdr := some 1004 }

theorem onChannel_knows : onChannel.Knows 1004 := ⟨rfl, rfl⟩

theorem onChannel_idle (side : Side) : (onChannel.dechunker side).Holds [] := by
  cases side <;> exact ⟨rfl, rfl, nofun⟩

def clientUnit (total : Nat) (first last : Bool) (piece : Bytes) : Bytes :=
  (SendData.encode 25 ⟨1001, 1004, chunk total first last piece⟩).getD []

/-- A PDU of one byte in two chunks, the first of which brings nothing. -/
theorem dechunking_inverts_chunking_two : ∃ outs r', onChannel.readAll ⟨fun _ => none, fun _ => none⟩
    [(.client, clientUnit 1 true false []), (.client, clientUnit 1 false true [7])] = .ok (outs, r') ∧
    clipsOf .client [(.client, clientUnit 1 true false []), (.client, clientUnit 1 false true [7])] outs =
      [none, some ⟨[7], [clientUnit 1 true false [], clientUnit 1 false true [7]]⟩] := by
  let cs : List Chunk := [⟨chunk 1 true false [], clientUnit 1 true false []⟩,
    ⟨chunk 1 false true [7], clientUnit 1 false true [7]⟩]
  have hcut : IsCut [7] cs := by
    refine ⟨fun c hc => ?_, ⟨_, _, rfl, by decide, by decide⟩, ⟨[_], _, rfl, by decide, by decide⟩, ?_, by decide⟩
    · rcases List.mem_pair.1 hc with rfl | rfl <;> exact ⟨by decide, by decide, by decide⟩
    · rintro c hc
      cases hc
      decide
  have hjoins : ∀ side, Joins
      (chunksOf 1004 side [(.client, clientUnit 1 true false []), (.client, clientUnit 1 false true [7])])
      (if side = .client then comesOut [7] cs else []) []
    | .client => ⟨[([7], cs)], by simpa using hcut, .inl rfl, by decide +kernel, rfl⟩
    | .server => ⟨[], nofun, .inl rfl, by decide +kernel, rfl⟩
  obtain ⟨outs, r', hall, -, hclips⟩ :=
    (dechunking_inverts_chunking onChannel_knows onChannel_idle _).1 _ (fun _ => []) hjoins
  exact ⟨outs, r', hall, (hclips .client).1⟩

/-! ## What is held -/

/-- The bytes a dechunker holds: the PDU's, and those of the units kept. -/
def Dechunker.held (d : Dechunker) : Nat := d.pdu.length + (d.units.map List.length).sum

theorem length_flatMap_payload (h : ∀ c ∈ cs, c.payload ≠ []) : cs.length ≤ (cs.flatMap Chunk.payload).length := by
  induction cs with
  | nil => exact Nat.zero_le _
  | cons c cs ih =>
    have hc := List.length_pos_iff.2 (h c List.mem_cons_self)
    have hcs := ih fun x hx => h x (List.mem_cons_of_mem _ hx)
    simp only [List.flatMap_cons, List.length_append, List.length_cons]
    omega

theorem IsBegun.length_le (h : IsBegun cs) (hbring : ∀ c ∈ cs, c.payload ≠ []) :
    (cs.flatMap Chunk.payload).length ≤ maxPdu ∧ cs.length ≤ maxPdu := by
  obtain ⟨c, rest, rfl, -, -⟩ := id h.opens
  have hroom := h.room c rfl
  have hlimit := (h.plain c List.mem_cons_self).bounded
  have hpieces := length_flatMap_payload hbring
  omega

theorem mem_chunksOf {units : List (Side × Bytes)} (h : c ∈ chunksOf channel side units) : (side, c.unit) ∈ units := by
  obtain ⟨⟨side', unit⟩, hmem, hc⟩ := List.mem_filterMap.1 h
  obtain ⟨hside, hc⟩ := Option.ite_none_right_eq_some.1 hc
  rw [(chunkOn_eq_some hc).1, ← hside]
  exact hmem

theorem sum_length_units {n : Nat} (h : ∀ c ∈ cs, c.unit.length ≤ n) :
    ((cs.map Chunk.unit).map List.length).sum ≤ cs.length * n := by
  induction cs with
  | nil => exact Nat.zero_le _
  | cons c cs ih =>
    have hc := h c List.mem_cons_self
    have hcs := ih fun x hx => h x (List.mem_cons_of_mem _ hx)
    simp only [List.map_cons, List.sum_cons, List.length_cons, Nat.succ_mul]
    omega

/-- Joining uses bounded memory as long as every chunk that does not end its PDU brings a byte of it: at any
time no more is held than a PDU of the greatest length and as many units of the greatest length. -/
theorem held_bounded {dec : ConnectDecoders} {r r' : Route} {channel : Nat} {side : Side} {units : List (Side × Bytes)}
    {outs : List Routed} (known : r.Knows channel) (idle : ∀ side, (r.dechunker side).Holds [])
    (framed : ∀ u ∈ units, u.2.length ≤ maxUnit)
    (bring : ∀ c ∈ chunksOf channel side units, c.last = true ∨ c.payload ≠ [])
    (read : r.readAll dec units = .ok (outs, r')) : (r'.dechunker side).held ≤ maxPdu + maxPdu * maxUnit := by
  obtain ⟨ws, hpush⟩ := Route.pushAll_of_readAll known read side
  obtain ⟨rest, ⟨pdus, -, hrest, hchunks, -⟩, hholds⟩ := Dechunker.joins_of_pushAll (idle side) (.inl rfl) hpush
  rw [List.nil_append] at hchunks
  have hmem : ∀ c ∈ rest, c ∈ chunksOf channel side units := by
    intro c hc
    rw [hchunks]
    exact List.mem_append_right _ hc
  have hsize := sum_length_units fun c hc => framed _ (mem_chunksOf (hmem c hc))
  rw [Dechunker.held, hholds.pdu, hholds.units]
  rcases hrest with rfl | hbegun
  · exact Nat.zero_le _
  · obtain ⟨hpdu, hlength⟩ := hbegun.length_le fun c hc =>
      (bring c (hmem c hc)).resolve_left (by rw [hbegun.unended c hc]; exact Bool.false_ne_true)
    exact Nat.add_le_add hpdu (hsize.trans (Nat.mul_le_mul_right _ hlength))

/-- A PDU of one byte in two chunks that both bring it on; the second ends it. -/
theorem held_bounded_two : ∃ outs r', onChannel.readAll ⟨fun _ => none, fun _ => none⟩
    [(.client, clientUnit 2 true false [6]), (.client, clientUnit 2 false true [7])] = .ok (outs, r') ∧
    (r'.dechunker .client).held ≤ maxPdu + maxPdu * maxUnit := by
  have hread : (onChannel.readAll ⟨fun _ => none, fun _ => none⟩
      [(.client, clientUnit 2 true false [6]), (.client, clientUnit 2 false true [7])]).toOption.isSome = true := by
    decide +kernel
  cases h : onChannel.readAll ⟨fun _ => none, fun _ => none⟩
      [(.client, clientUnit 2 true false [6]), (.client, clientUnit 2 false true [7])] with
  | error e => exact absurd hread (by simp [h, Except.toOption])
  | ok p => exact ⟨p.1, p.2, rfl, held_bounded onChannel_knows onChannel_idle (by decide) (by decide +kernel) h⟩

/-- The beginning of a PDU of one byte: the chunk that announces it, and any number of chunks of no bytes. -/
def idling (n : Nat) : List Chunk :=
  ⟨chunk 1 true false [], clientUnit 1 true false []⟩ ::
    List.replicate n ⟨chunk 1 false false [], clientUnit 1 false false []⟩

theorem idling_begun (n : Nat) : IsBegun (idling n) := by
  have hall : ∀ {P : Chunk → Prop}, P ⟨chunk 1 true false [], clientUnit 1 true false []⟩ →
      P ⟨chunk 1 false false [], clientUnit 1 false false []⟩ → ∀ c ∈ idling n, P c := by
    intro P hfirst hmore c hc
    rcases List.mem_cons.1 hc with rfl | hc
    · exact hfirst
    · rw [List.eq_of_mem_replicate hc]
      exact hmore
  have hpieces : (idling n).flatMap Chunk.payload = [] := List.flatMap_eq_nil_iff.2 (hall (by decide) (by decide))
  refine ⟨hall ⟨by decide, by decide, by decide⟩ ⟨by decide, by decide, by decide⟩, ⟨_, _, rfl, by decide, ?_⟩,
    hall (by decide) (by decide), fun c _ => ?_⟩
  · intro c hc
    rw [List.eq_of_mem_replicate hc]
    decide
  · rw [hpieces]
    exact Nat.zero_le _

def idlingUnits (n : Nat) : List (Side × Bytes) :=
  (.client, clientUnit 1 true false []) :: List.replicate n (.client, clientUnit 1 false false [])

theorem chunksOf_idlingUnits (n : Nat) (side : Side) :
    chunksOf 1004 side (idlingUnits n) = if side = .client then idling n else [] := by
  have hfirst : chunkOn 1004 .client (clientUnit 1 true false []) =
      some ⟨chunk 1 true false [], clientUnit 1 true false []⟩ := by decide +kernel
  have hmore : chunkOn 1004 .client (clientUnit 1 false false []) =
      some ⟨chunk 1 false false [], clientUnit 1 false false []⟩ := by decide +kernel
  cases side <;> simp [chunksOf, idlingUnits, idling, hfirst, hmore]

/-- Chunks of no bytes are kept without end: whatever the bound, a client can send units that are read,
none of which ends the session, and more is held of the PDU of one byte they begin. -/
theorem held_unbounded : ∃ units : Nat → List (Side × Bytes), ∀ bound, ∃ outs r',
    (∀ u ∈ units bound, u.1 = .client ∧ ChannelUnit .client 1004 u.2 ∧ u.2.length ≤ maxUnit) ∧
    onChannel.readAll ⟨fun _ => none, fun _ => none⟩ (units bound) = .ok (outs, r') ∧
    bound < (r'.dechunker .client).held := by
  refine ⟨idlingUnits, fun bound => ?_⟩
  have hpush : ∀ side, ∃ d', (onChannel.dechunker side).pushAll (chunksOf 1004 side (idlingUnits bound)) =
      .ok (List.replicate (chunksOf 1004 side (idlingUnits bound)).length none, d') ∧
      d'.Holds (chunksOf 1004 side (idlingUnits bound)) := by
    intro side
    refine Dechunker.pushAll_begun (onChannel_idle side) ?_
    rw [chunksOf_idlingUnits]
    split
    · exact .inr (idling_begun bound)
    · exact .inl rfl
  choose d' hd' hholds using hpush
  obtain ⟨outs, r', hall, -, rfl, -⟩ := Route.readAll_of_pushAll ⟨fun _ => none, fun _ => none⟩ onChannel_knows hd'
  refine ⟨outs, r', fun u hu => ?_, hall, ?_⟩
  · have hfirst : SendData.encode Side.client.choice ⟨1001, 1004, chunk 1 true false []⟩ =
        some (clientUnit 1 true false []) := by decide
    have hmore : SendData.encode Side.client.choice ⟨1001, 1004, chunk 1 false false []⟩ =
        some (clientUnit 1 false false []) := by decide
    rcases List.mem_cons.1 hu with rfl | hu
    · exact ⟨rfl, (channelUnit_encode (by decide) (by decide) (by decide) hfirst).2, by decide⟩
    · rw [List.eq_of_mem_replicate hu]
      exact ⟨rfl, (channelUnit_encode (by decide) (by decide) (by decide) hmore).2, by decide⟩
  · have hclient := hholds .client
    rw [chunksOf_idlingUnits, if_pos rfl] at hclient
    have hfirst : (clientUnit 1 true false []).length = 22 := by decide
    have hmore : (clientUnit 1 false false []).length = 22 := by decide
    rw [Dechunker.held, hclient.units]
    simp only [idling, List.map_cons, List.map_replicate, List.sum_cons, List.sum_replicate_nat, hfirst, hmore]
    omega

end WebAccess.Scan
