/-
The relay is transparent. Whatever the network cuts the two streams into and however the readers,
the clipboard task and the writers take turns, what a side is written is whole units; without the
clipboard task's units it is what the other side sent outside the clipboard channel, in order and
unchanged but for the compression options of the Connect Initial; and the clipboard task's units
are read as exactly the PDUs it wrote (`relay_transparent`).
-/
import WebAccess.Scan.Chunks
import WebAccess.Scan.Emissions
import Mathlib.Data.List.Forall2

namespace WebAccess.Scan

open Codec Wire Transition

/-! ## Ids that fit -/

/-- The ids the router has are sixteen bits wide. -/
structure Route.Fits (r : Route) : Prop where
  cliprdr : ∀ c, r.cliprdr = some c → c < 2 ^ 16
  user : ∀ c, r.userChannel = some c → c < 2 ^ 16
  server : ∀ c, r.serverInitiator = some c → c < 2 ^ 16

variable {d : SendData} {unit : Bytes}

theorem sendData_initiator {size : Nat} {bs rest : Bytes} (h : (sendData size).run bs = some (d, rest)) :
    d.initiatorId < 2 ^ 16 := by
  simp only [sendData, StateT.run_bind, require_run, Option.bind_eq_bind, Option.bind_eq_some_iff] at h
  obtain ⟨⟨ini, bs₁⟩, _, ⟨_, bs₂⟩, hreq, ⟨chan, bs₃⟩, _, ⟨_, bs₄⟩, _, ⟨len, bs₅⟩, _, ⟨_, bs₆⟩, _, ⟨user, bs₇⟩, _, h⟩ :=
    h
  cases h
  split at hreq
  · rename_i hlt
    simpa using hlt
  · cases hreq

theorem ofUnit_initiator {m : McsMessage} (h : McsMessage.ofUnit unit = some m)
    (hd : m = .sendDataRequest d ∨ m = .sendDataIndication d) : d.initiatorId < 2 ^ 16 := by
  obtain ⟨⟨m, rest⟩, hm, rfl⟩ := Option.map_eq_some_iff.1 (show (mcsMessage.run unit).map Prod.fst = some m from h)
  simp only [mcsMessage, StateT.run_bind, Option.bind_eq_bind, Option.bind_eq_some_iff] at hm
  obtain ⟨⟨size, bs⟩, _, ⟨choice, bs'⟩, _, hm⟩ := hm
  simp only at hm
  split at hm
  case h_3 =>
    cases hm
    rcases hd with hd | hd <;> cases hd
  all_goals
    simp only [StateT.run_map, Option.map_eq_map, Option.map_eq_some_iff, Prod.mk.injEq] at hm
    obtain ⟨⟨d', r⟩, hd', rfl, rfl⟩ := hm
    rcases hd with hd | hd <;> cases hd
    exact sendData_initiator hd'

theorem Route.channelOf_lt {dec : ConnectDecoders} {r : Route} {names : List Text} {ids : List Nat} {c : Nat}
    (h : r.connectResponse dec unit = some (names, ids)) (hc : Route.channelOf names ids = some c) : c < 2 ^ 16 := by
  unfold connectResponse at h
  split at h
  · simp only [Option.bind_eq_bind, Option.bind_eq_some_iff, Option.pure_def, Option.some.injEq, Prod.mk.injEq] at h
    obtain ⟨_, _, ids', _, _, rfl⟩ := h
    obtain ⟨i, _, hi⟩ := Option.bind_eq_some_iff.1 hc
    rw [List.getElem?_map, Option.map_eq_some_iff] at hi
    obtain ⟨x, _, rfl⟩ := hi
    exact x.toNat_lt
  · cases h

namespace Route

variable {dec : ConnectDecoders} {r r' : Route} {routed : Routed}

variable {unit : Bytes}

theorem Fits.readClient (hr : r.Fits) (h : r.readClient dec unit = .ok (routed, r')) : r'.Fits := by
  unfold Route.readClient at h
  split at h
  · split at h
    · cases h
      exact hr
    · cases h
      exact ⟨hr.cliprdr, hr.user, hr.server⟩
  · split at h
    · rename_i d hd
      have huser : ∀ c, some d.initiatorId = some c → c < 2 ^ 16 := by
        rintro c ⟨⟩
        exact ofUnit_initiator hd (.inl rfl)
      simp only at h
      split at h
      · obtain ⟨_, -, h⟩ := bind_ok h
        cases h
        exact ⟨hr.cliprdr, huser, hr.server⟩
      · cases h
        exact ⟨hr.cliprdr, huser, hr.server⟩
    · cases h
      exact hr

theorem Fits.readServer (hr : r.Fits) (h : r.readServer dec unit = .ok (routed, r')) : r'.Fits := by
  unfold Route.readServer at h
  split at h
  · rename_i names ids hresp
    cases h
    exact ⟨fun c hc => channelOf_lt hresp hc, hr.user, hr.server⟩
  · split at h
    · rename_i d hd
      have hserver : ∀ c, some d.initiatorId = some c → c < 2 ^ 16 := by
        rintro c ⟨⟩
        exact ofUnit_initiator hd (.inr rfl)
      simp only at h
      split at h
      · obtain ⟨_, -, h⟩ := bind_ok h
        cases h
        exact ⟨hr.cliprdr, hr.user, hserver⟩
      · cases h
        exact ⟨hr.cliprdr, hr.user, hserver⟩
    · cases h
      exact hr

theorem Fits.readUnit {side : Side} {unit : FrameUnit} (hr : r.Fits) (h : r.readUnit dec side unit = .ok (routed, r')) :
    r'.Fits := by
  unfold Route.readUnit at h
  split at h
  · exact hr.readClient h
  · exact hr.readServer h
  · cases h
    exact hr

end Route

/-! ## What the clipboard task writes -/

/-- The units an emission goes out as. -/
def Emission.units (em : Emission) : List Bytes :=
  match em.body with
  | .own _ units => units
  | .passed whole => whole.units

/-- The PDU an emission carries. -/
def Emission.bytes (em : Emission) : Bytes :=
  match em.body with
  | .own pdu _ => pdu.encode.getD []
  | .passed whole => whole.pdu

theorem unitsTo_outputs (side : Side) (out : List Emission) :
    unitsTo side (out.flatMap Emission.outputs) = (out.filter (·.side == side)).flatMap Emission.units := by
  induction out with
  | nil => rfl
  | cons em out ih =>
    have hone : unitsTo side em.outputs = if em.side = side then em.units else [] := by
      obtain ⟨side', body⟩ := em
      by_cases h : side' = side <;> cases body <;>
        simp [unitsTo, Emission.outputs, Emission.units, h, List.filter_map, Function.comp_def, List.flatMap_map]
    rw [List.flatMap_cons, unitsTo_append, ih, hone]
    by_cases h : em.side = side <;> simp [h]

theorem Env.carried {env : Env} {side : Side} {pdu : ClipboardPdu} {us : List Bytes} (hr : env.route.Fits)
    (h : env.frames pdu side = .ok us) :
    ∃ c, env.route.cliprdr = some c ∧ Carried side.other c (pdu.encode.getD []) us := by
  have hframe : ∀ (side : Side) {initiator : Option Nat} {encode : Nat → Nat → Bytes → Option (List Bytes)},
      (∀ c user m, encode c user m = encodeSvcMessage side.other.choice c user m) →
      (∀ c, initiator = some c → c < 2 ^ 16) → Route.frame encode env.route.cliprdr initiator pdu = .ok us →
      ∃ c, env.route.cliprdr = some c ∧ Carried side.other c (pdu.encode.getD []) us := by
    intro side initiator encode hencode hini hf
    unfold Route.frame at hf
    split at hf
    · rename_i c user hc
      split at hf
      · rename_i units hunits
        cases hf
        obtain ⟨bytes, hbytes, hunits⟩ := Option.bind_eq_some_iff.1 hunits
        rw [hencode] at hunits
        refine ⟨c, hc, ?_⟩
        rw [hbytes, Option.getD_some]
        exact carried_encode (hr.cliprdr c hc) (hini user rfl) hunits
      · cases hf
    · cases hf
  cases side with
  | client => exact hframe .client (fun _ _ _ => rfl) hr.server h
  | server => exact hframe .server (fun _ _ _ => rfl) hr.user h

namespace Relay

variable {dec : ConnectDecoders} {hybridEx : Bool} {staging : Staging} {tr : RelayTrace} {s s' : Relay} {a : Act}

/-! ## The clipboard channel stays in step -/

/-- The units of a PDU from a side carry it on the clipboard channel. -/
def Good (s : Relay) (side : Side) (w : Whole) : Prop :=
  ∃ c, s.route.cliprdr = some c ∧ Carried side c w.pdu w.units

/-- What the router has of an incomplete PDU of a side came in on the clipboard channel. -/
def Gathering (r : Route) (side : Side) : Prop :=
  (r.dechunker side).units = [] ∨ ∃ c, r.cliprdr = some c ∧ Gathered side c (r.dechunker side)

/-- Every PDU on its way to the clipboard task or kept by it is carried by its units, and so is
what the router has of one that is incomplete. -/
structure InStep (s : Relay) : Prop where
  fits : s.route.Fits
  gathered : ∀ side, Gathering s.route side
  handing : ∀ side w, (s.intake side).handing = some w → s.Good side w
  queue : ∀ side w, Event.pdu side w ∈ s.queue → s.Good side w
  kept : ∀ d f, (s.session.clip.direction d).phase = .fetching f → s.Good d.sender f.list

variable {side : Side} {unit sent : Bytes}

theorem Good.mono {w : Whole} (hkeep : ∀ c, s.route.cliprdr = some c → s'.route.cliprdr = some c) (h : s.Good side w) :
    s'.Good side w := by
  obtain ⟨c, hc, hw⟩ := h
  exact ⟨c, hkeep c hc, hw⟩

variable {c : Nat} {env : Env} {event : Event} {session : Session} {em : Emission} {e : Entry Relay Act}
  {item : Item}

theorem InStep.gatheredOn (hs : InStep s) (hc : s.route.cliprdr = some c) :
    Gathered side c (s.route.dechunker side) := by
  rcases hs.gathered side with hidle | ⟨c', hc', hg⟩
  · exact gathered_idle hidle
  · cases hc.symm.trans hc'
    exact hg

theorem channelUnit_of_cut {unit : FrameUnit} {d : SendData} (hcut : unit.Cut)
    (hdata : sendDataOf side unit.bytes = some d) : ChannelUnit side d.channelId unit.bytes := by
  have hkind : unit.kind = .tpkt := by
    by_contra hkind
    simp [sendDataOf_eq_some, ofUnit_eq_none (hcut.notTpkt hkind)] at hdata
  refine ⟨⟨d, hdata, rfl⟩, ?_⟩
  rw [← hkind]
  exact hcut.whole

theorem InStep.forward {unit : FrameUnit} {rest : List FrameUnit} {routed : Routed} {route : Route} (hs : InStep s)
    (hcut : unit.Cut) (free : (s.intake side).handing = none)
    (routes : s.route.readUnit dec side unit = .ok (routed, route))
    (hrouting : Routing dec side s.route unit routed route) :
    InStep ({ s with route }.setIntake side ((s.intake side).routed unit rest routed)) := by
  have hkeep : ∀ c, s.route.cliprdr = some c → route.cliprdr = some c := fun c hc => hrouting.cliprdr_kept hc
  have hsame : ∀ {side' : Side}, route.dechunker side' = s.route.dechunker side' → Gathering route side' := by
    intro side' heq
    rw [Gathering, heq]
    exact (hs.gathered side').imp id (Exists.imp fun c => And.imp_left (hkeep c))
  have hown : Gathering route side ∧ ∀ w, ((s.intake side).routed unit rest routed).handing = some w →
      ∃ c, route.cliprdr = some c ∧ Carried side c w.pdu w.units := by
    cases hrouting with
    | clip data channel push =>
      obtain ⟨hg, hcarried⟩ := (hs.gatheredOn channel).push data (channelUnit_of_cut hcut data) push
      exact ⟨.inr ⟨_, hkeep _ channel, hg⟩, fun w hw => ⟨_, hkeep _ channel, hcarried w hw⟩⟩
    | initial client unnamed kind decoded how =>
      refine ⟨hsame (by cases side <;> rfl), fun w hw => ?_⟩
      rcases how with rfl | ⟨copy, rfl, -⟩ <;> simp [Intake.routed, free] at hw
    | response => exact ⟨hsame (by cases side <;> rfl), fun w hw => by simp [Intake.routed, free] at hw⟩
    | other off silent quiet dechunkers =>
      exact ⟨hsame (by rw [dechunkers]), fun w hw => by simp [Intake.routed, free] at hw⟩
  refine ⟨hs.fits.readUnit routes, fun side' => ?_, ?_, ?_, ?_⟩
  · by_cases hside : side' = side
    · subst hside
      exact hown.1
    · exact hsame (hrouting.dechunker_kept hside)
  · exact forall_setIntake (P := fun side' i => ∀ w, i.handing = some w → Good _ side' w) hown.2
      fun side' _ w hw => (hs.handing side' w hw).mono hkeep
  · exact fun side' w hw => (hs.queue side' w hw).mono hkeep
  · exact fun d f hf => (hs.kept d f hf).mono hkeep

theorem InStep.answered {rest : List Event} (hs : InStep s) (hevent : ∀ side w, event = .pdu side w → s.Good side w)
    (hrest : ∀ ev ∈ rest, ev ∈ s.queue) (hstep : s.session.step (s.label env event) = some session) :
    InStep (s.answered session rest) := by
  refine ⟨hs.fits, hs.gathered, hs.handing, fun side w hw => hs.queue side w (hrest _ hw), fun d f hf => ?_⟩
  rcases kept_step hstep hf with ⟨f', hf', hlist⟩ | hev
  · rw [hlist]
    exact hs.kept d f' hf'
  · exact hevent _ _ hev

theorem InStep.turn (hs : InStep s) (hw : WellCut s) (h : Turn dec s a s') : InStep s' := by
  -- A reader that moves on with what it was handing over, or with nothing.
  have hset : ∀ {t : Relay} {side : Side} {i : Intake}, InStep t →
      (∀ w, i.handing = some w → (t.intake side).handing = some w) → InStep (t.setIntake side i) := by
    intro t side i ht hi
    exact ⟨ht.fits, ht.gathered, forall_setIntake (P := fun side' i => ∀ w, i.handing = some w → t.Good side' w)
      (fun w hw => ht.handing side w (hi w hw)) fun side' _ => ht.handing side', ht.queue, ht.kept⟩
  cases h with
  | ended | outOfStep | put | write => exact ⟨hs.fits, hs.gathered, hs.handing, hs.queue, hs.kept⟩
  | read | idle => exact hset hs fun w hw => hw
  | flush => exact hset ⟨hs.fits, hs.gathered, hs.handing, hs.queue, hs.kept⟩ fun w hw => hw
  | forward batch free routes =>
    exact hs.forward (hw.batch _ _ batch _ (List.mem_cons_self ..)) free routes (hw.routing batch routes)
  | @hand side whole handing room =>
    refine hset ⟨hs.fits, hs.gathered, hs.handing, fun side' w hw => ?_, hs.kept⟩ fun w hw => by cases hw
    rcases mem_snoc.1 hw with hw | hw
    · exact hs.queue side' w hw
    · cases hw
      exact hs.handing side whole handing
  | report running =>
    refine ⟨hs.fits, hs.gathered, hs.handing, fun side w hw => ?_, hs.kept⟩
    rcases mem_snoc.1 hw with hw | hw
    · exact hs.queue side w hw
    · cases hw
  | take queue free step =>
    refine hs.answered (fun side w hev => hs.queue side w ?_) (fun ev hev => ?_) step
    · rw [queue, hev]
      exact List.mem_cons_self ..
    · rw [queue]
      exact List.mem_cons_of_mem _ hev
  | wake free step | stage step => exact hs.answered (by simp) (fun ev hev => hev) step

theorem inStep (h : RelayRun dec hybridEx staging tr s) : InStep s := by
  refine (h.history ?_ fun tr s a s' hr hs hstep => hs.turn (wellCut hr) (turn hstep).2)
  refine ⟨⟨by simp [start], by simp [start], by simp [start]⟩, fun side => .inl (by cases side <;> rfl), ?_, ?_, ?_⟩
  · intro side w hw
    cases hw
  · intro side w hw
    cases hw
  · intro d f hf
    cases d <;> cases hf

theorem carried_answered (hs : InStep s) (hevent : ∀ side w, event = .pdu side w → s.Good side w)
    (hstep : s.session.step (s.label env event) = some session) (hem : em ∈ session.clip.out) :
    s.Good em.side.other ⟨em.bytes, em.units⟩ := by
  obtain ⟨side, body⟩ := em
  cases body with
  | own pdu us => exact Env.carried hs.fits (framed_step hstep hem rfl)
  | passed w =>
    rcases passed_step hstep hem rfl with hev | ⟨d, f, hf, rfl, hside⟩
    · exact hevent _ _ hev
    · have hsender : d.sender = side.other := by
        rw [show side = d.receiver from hside]
        cases d <;> rfl
      rw [← hsender]
      exact hs.kept d f hf

/-! ## What the clipboard task has written -/

/-- What the clipboard task writes for a side in a step. -/
def emissions (side : Side) (e : Entry Relay Act) : List Emission :=
  match e.label with
  | .take _ | .wake _ | .stage _ _ =>
    if e.post.running then e.post.session.clip.out.filter (·.side == side) else []
  | _ => []

/-- The PDUs the clipboard task has written for a side, oldest first. -/
def emitted (side : Side) (tr : RelayTrace) : List Bytes := (tr.flatMap (emissions side)).map Emission.bytes

theorem proxied_turn (hrun : s.running = true) (h : Turn dec s a s') (side : Side) :
    s'.proxied side = s.proxied side ++ (emissions side ⟨s, a, s'⟩).flatMap Emission.units := by
  have key : unitsFrom .clip (s.sends side a) ++ unitsTo side s'.outs =
      unitsTo side s.outs ++ (emissions side ⟨s, a, s'⟩).flatMap Emission.units := by
    have hans : ∀ {session : Session} {rest : List Event}, unitsTo side (s.answered session rest).outs =
        unitsTo side s.outs ++ (session.clip.out.filter (·.side == side)).flatMap Emission.units := by
      intro session rest
      simp only [Relay.answered, unitsTo_append, unitsTo_outputs]
    cases h with
    | ended fallible => cases a <;> first | exact (List.append_nil _).symm | cases fallible
    | outOfStep | read | forward | hand | report | write => exact (List.append_nil _).symm
    | take | wake | stage =>
      simp only [sends, unitsFrom, List.filter_nil, List.flatMap_nil, List.nil_append, hans]
      simp [emissions, Relay.answered, hrun]
    | @idle side' batch free nothing => simp [sends, nothing, unitsFrom, emissions, setIntake]
    | @flush side' batch free held room =>
      by_cases hs : side = side'.other <;> simp [sends, hs, held, unitsFrom, emissions, setIntake, enqueue]
    | @put o rest outs room =>
      by_cases hs : side = o.side
      · subst hs
        simp [sends, outs, unitsFrom, unitsTo, emissions, enqueue]
      · simp [sends, outs, hs, Ne.symm hs, unitsFrom, unitsTo, emissions, enqueue]
  rw [proxied, sentTo_turn h, unitsFrom_append, List.append_assoc, key, proxied, List.append_assoc]

theorem carried_turn (hs : InStep s) (h : Turn dec s a s') (hem : em ∈ emissions side ⟨s, a, s'⟩) :
    s.Good side.other ⟨em.bytes, em.units⟩ := by
  have hans : ∀ {env : Env} {event : Event} {session : Session} {rest : List Event},
      (∀ side w, event = .pdu side w → s.Good side w) → s.session.step (s.label env event) = some session →
      em ∈ (if (s.answered session rest).running then
        (s.answered session rest).session.clip.out.filter (·.side == side) else []) →
      s.Good side.other ⟨em.bytes, em.units⟩ := by
    intro env event session rest hevent hstep hem
    split at hem
    · obtain ⟨hout, hside⟩ := List.mem_filter.1 hem
      rw [← show em.side = side by simpa using hside]
      exact carried_answered hs hevent hstep hout
    · cases hem
  cases h with
  | ended fallible => cases a <;> simp [emissions, ended] at hem
  | outOfStep | read | forward | hand | idle | flush | report | put | write => cases hem
  | take queue free step =>
    refine hans (fun side w hev => hs.queue side w ?_) step hem
    rw [queue, hev]
    exact List.mem_cons_self ..
  | wake free step | stage step => exact hans (by simp) step hem

theorem proxied_eq (h : RelayRun dec hybridEx staging tr s) (side : Side) :
    s.proxied side = (tr.flatMap (emissions side)).flatMap Emission.units ∧
      ∀ em ∈ tr.flatMap (emissions side), s.Good side.other ⟨em.bytes, em.units⟩ := by
  refine h.history ⟨rfl, by simp⟩ ?_
  intro tr s a s' hr ih hstep
  obtain ⟨hrun, hturn⟩ := turn hstep
  have hkeep : ∀ c, s.route.cliprdr = some c → s'.route.cliprdr = some c :=
    fun c hc => cliprdr_kept (wellCut hr) hturn hc
  refine ⟨?_, fun em hem => ?_⟩
  · rw [proxied_turn hrun hturn, ih.1]
    simp
  · rw [List.flatMap_append, List.mem_append, List.flatMap_singleton] at hem
    exact (hem.elim (ih.2 em) (carried_turn (inStep hr) hturn)).mono hkeep

theorem receive_proxied (h : RelayRun dec hybridEx staging tr s) (side : Side) :
    ∃ d : Dechunker, receive side.other {} (s.proxied side) = .ok (emitted side tr, d) ∧ d.units = [] := by
  obtain ⟨heq, hall⟩ := proxied_eq h side
  cases hc : s.route.cliprdr with
  | none =>
    have hnone : tr.flatMap (emissions side) = [] := by
      refine List.eq_nil_iff_forall_not_mem.2 fun em hem => ?_
      obtain ⟨c, hc', _⟩ := hall em hem
      rw [hc] at hc'
      cases hc'
    exact ⟨{}, by rw [heq, emitted, hnone]; rfl, rfl⟩
  | some c =>
    have hcarried : ∀ b ∈ (tr.flatMap (emissions side)).map (fun em => (em.bytes, em.units)),
        Carried side.other c b.1 b.2 := by
      intro b hb
      obtain ⟨em, hem, rfl⟩ := List.mem_map.1 hb
      obtain ⟨c', hc', hcarried⟩ := hall em hem
      cases hc.symm.trans hc'
      exact hcarried
    obtain ⟨d, hd, hidle⟩ := receive_carried (d := {}) hcarried rfl
    refine ⟨d, ?_, hidle⟩
    rw [heq, emitted]
    simpa [List.flatMap_map, Function.comp_def] using hd

/-! ## What arrives -/

/-- A unit routed, and the router as it was then. -/
structure Arrival where
  unit : FrameUnit
  route : Route

/-- The units of a side that were routed, oldest first. -/
def arrivals (side : Side) (tr : RelayTrace) : List Arrival :=
  tr.filterMap fun e => (arrival side e).map fun unit => ⟨unit, e.pre.route⟩

def readIn (side : Side) (e : Entry Relay Act) : Bytes :=
  match e.label with
  | .read side' bytes => if side' = side then bytes else []
  | _ => []

/-- All that was read from a side. -/
def received (side : Side) (tr : RelayTrace) : Bytes := tr.flatMap (readIn side)

/-- The unit is on the clipboard channel: a Send Data PDU of its side on the id known when it was
routed. -/
def Arrival.isClipboard (side : Side) (a : Arrival) : Bool :=
  match sendDataOf side a.unit.bytes with
  | some d => a.route.cliprdr == some d.channelId
  | none => false

theorem arrivals_snoc :
    arrivals side (tr ++ [e]) = arrivals side tr ++ ((arrival side e).map fun unit => ⟨unit, e.pre.route⟩).toList := by
  simp only [arrivals, List.filterMap_append]
  cases h : arrival side e <;> simp [h]

theorem received_snoc : received side (tr ++ [e]) = received side tr ++ readIn side e := by
  simp [received]

theorem running_of_turn (h : Turn dec s a s') (hrun : s'.running = true) : s.running = true := by
  cases h <;> first | exact hrun | cases hrun

/-- A step of a reader: bytes are read and cut into units, or the first unit of the batch is
routed, or neither. -/
theorem intake_turn (h : Turn dec s a s') (hrun : s'.running = true) (side : Side) :
    (∃ bytes units framer, readIn side ⟨s, a, s'⟩ = bytes ∧ arrival side ⟨s, a, s'⟩ = none ∧
      (s.intake side).batch = none ∧ (s.intake side).framer.push bytes = .ok (units, framer) ∧
      (s'.intake side).batch = some units ∧ (s'.intake side).framer = framer) ∨
    (∃ unit rest, readIn side ⟨s, a, s'⟩ = [] ∧ arrival side ⟨s, a, s'⟩ = some unit ∧
      (s.intake side).batch = some (unit :: rest) ∧ (s'.intake side).batch = some rest ∧
      (s'.intake side).framer = (s.intake side).framer) ∨
    (readIn side ⟨s, a, s'⟩ = [] ∧ arrival side ⟨s, a, s'⟩ = none ∧
      (s'.intake side).batch.getD [] = (s.intake side).batch.getD [] ∧
      (s'.intake side).framer = (s.intake side).framer) := by
  cases h with
  | ended | outOfStep => cases hrun
  | report | take | wake | stage | put | write => exact .inr (.inr ⟨rfl, rfl, rfl, rfl⟩)
  | @read side' bytes units framer idle push =>
    by_cases hs : side' = side
    · subst hs
      exact .inl ⟨bytes, units, framer, by simp [readIn], rfl, idle, push, by simp, by simp⟩
    · refine .inr (.inr ⟨by simp [readIn, hs], rfl, ?_⟩)
      rw [intake_setIntake_of_ne _ _ (Ne.symm hs)]
      exact ⟨rfl, rfl⟩
  | @forward side' unit rest routed route batch free routes =>
    by_cases hs : side' = side
    · subst hs
      refine .inr (.inl ⟨unit, rest, rfl, by simp [arrival, batch], batch, ?_, ?_⟩)
      · rw [intake_setIntake, Intake.batch_routed]
      · rw [intake_setIntake]
        cases routed <;> rfl
    · refine .inr (.inr ⟨rfl, by simp [arrival, hs], ?_⟩)
      rw [intake_setIntake_of_ne _ _ (Ne.symm hs)]
      exact ⟨rfl, rfl⟩
  | hand =>
    exact .inr (.inr ⟨rfl, rfl, intake_setIntake_congr (·.batch.getD []) (by rfl) side,
      intake_setIntake_congr Intake.framer (by rfl) side⟩)
  | idle batch | flush batch =>
    refine .inr (.inr ⟨rfl, rfl, intake_setIntake_congr (·.batch.getD []) ?_ side,
      intake_setIntake_congr Intake.framer (by rfl) side⟩)
    simp [enqueue, batch]

/-- However the stream was cut into reads, the units routed and those still in the batch are the
units of the whole stream. -/
theorem framed_eq (h : RelayRun dec hybridEx staging tr s) (side : Side) (hrun : s.running = true) :
    (Framer.new (side == .server) hybridEx).push (received side tr) =
      .ok ((arrivals side tr).map Arrival.unit ++ (s.intake side).batch.getD [], (s.intake side).framer) := by
  revert hrun
  refine h.history (fun _ => rfl) ?_
  intro tr s a s' _ ih hstep hrun
  have hturn := (turn hstep).2
  have ih := ih (running_of_turn hturn hrun)
  rw [received_snoc, arrivals_snoc]
  rcases intake_turn hturn hrun side with ⟨bytes, units, framer, hread, harr, hidle, hpush, hbatch, hframer⟩ |
    ⟨unit, rest, hread, harr, hbatch, hbatch', hframer⟩ | ⟨hread, harr, hbatch, hframer⟩
  · rw [hidle, Option.getD_none, List.append_nil] at ih
    rw [hread, harr, hbatch, hframer]
    simpa using Framer.push_append ih hpush
  · rw [hread, harr, hbatch', hframer, List.append_nil]
    rw [hbatch] at ih
    simpa using ih
  · rw [hread, harr, hbatch, hframer, List.append_nil]
    simpa using ih

/-! ## What is passed on -/

/-- How a unit is passed on: as it came, or, if it is the first Connect Initial and names cliprdr,
as its copy with the compression options cleared. -/
def SentAs (dec : ConnectDecoders) (side : Side) (a : Arrival) (sent : Bytes) : Prop :=
  sent = a.unit.bytes ∨ side = .client ∧ a.route.names = none ∧
    (∃ names, a.unit.initialNames dec = some names ∧ cliprdrName ∈ names) ∧ ClearedCopy a.unit.bytes sent

theorem passedOn_turn {unit : FrameUnit} (hs : WellCut s) (h : Turn dec s a s') (hrun : s'.running = true)
    (harr : arrival side ⟨s, a, s'⟩ = some unit) :
    if Arrival.isClipboard side ⟨unit, s.route⟩ then passedOn dec side ⟨s, a, s'⟩ = []
    else ∃ sent, passedOn dec side ⟨s, a, s'⟩ = [sent] ∧ SentAs dec side ⟨unit, s.route⟩ sent := by
  rcases arrival_turn h harr with ⟨rfl, _⟩ | ⟨rest, routed, route, batch, _, routes, rfl⟩
  · cases hrun
  have hpassed : ∀ t, passedOn dec side ⟨s, a, t⟩ = routed.sent unit := by
    intro t
    have harr' : arrival side ⟨s, a, t⟩ = some unit := harr
    simp only [passedOn, harr', routes]
  rw [hpassed]
  -- Only a unit on the channel known is kept back.
  have hoff : (∀ d, sendDataOf side unit.bytes = some d → s.route.cliprdr ≠ some d.channelId) →
      Arrival.isClipboard side ⟨unit, s.route⟩ = false := by
    intro hoff
    unfold Arrival.isClipboard
    split
    · rename_i d hd
      simpa using hoff d hd
    · rfl
  cases hs.routing batch routes with
  | clip data channel =>
    have hclip : Arrival.isClipboard side ⟨unit, s.route⟩ = true := by simp [Arrival.isClipboard, data, channel]
    rw [if_pos hclip]
    rfl
  | @initial names _ client unnamed kind decoded how =>
    rw [hoff (by simp [hs.named unnamed])]
    rcases how with rfl | ⟨copy, rfl, hnames, hcopy⟩
    · exact ⟨_, rfl, .inl rfl⟩
    · refine ⟨copy, rfl, .inr ⟨client, unnamed, ⟨names, decoded, ?_⟩, noCompression_cleared hcopy⟩⟩
      simpa using hnames
  | response server kind unknown decoded =>
    rw [hoff (by simp [unknown])]
    exact ⟨_, rfl, .inl rfl⟩
  | other off =>
    rw [hoff off]
    exact ⟨_, rfl, .inl rfl⟩

theorem sentAs_relayed (h : RelayRun dec hybridEx staging tr s) (side : Side) (hrun : s.running = true) :
    List.Forall₂ (SentAs dec side) ((arrivals side tr).filter (!·.isClipboard side)) (s.relayed side) := by
  revert hrun
  refine h.history (fun _ => .nil) ?_
  intro tr s a s' hr ih hstep hrun
  have hturn := (turn hstep).2
  have ih := ih (running_of_turn hturn hrun)
  rw [arrivals_snoc, relayed_turn hturn, List.filter_append]
  refine List.rel_append ih ?_
  cases harr : arrival side ⟨s, a, s'⟩ with
  | none => simp [passedOn, harr]
  | some unit =>
    have hone := passedOn_turn (wellCut hr) hturn hrun harr
    split at hone
    · rename_i hclip
      simp [hone, hclip]
    · rename_i hclip
      obtain ⟨sent, hsent, has⟩ := hone
      simpa [hsent, hclip] using has

/-! ## What every arrival was -/

/-- What holds of the units routed so far: they were cut off whole, the channel they were routed
under is the one known now, and the names are known from the first Connect Initial on. -/
structure Arrived (dec : ConnectDecoders) (tr : RelayTrace) (s : Relay) : Prop where
  cut : ∀ side, ∀ a ∈ arrivals side tr, a.unit.Cut
  route : ∀ side, ∀ a ∈ arrivals side tr, a.route.Named
  channel : ∀ side, ∀ a ∈ arrivals side tr, ∀ c, a.route.cliprdr = some c → s.route.cliprdr = some c
  named : ∀ a ∈ arrivals .client tr, a.unit.initialNames dec ≠ none → s.route.names ≠ none
  first : (arrivals .client tr).Pairwise fun a b => a.unit.initialNames dec ≠ none → b.route.names ≠ none

theorem names_kept_turn (hs : WellCut s) (h : Turn dec s a s') (hn : s.route.names ≠ none) : s'.route.names ≠ none := by
  cases h with
  | forward batch free routes => exact (hs.routing batch routes).names_kept hn
  | _ => exact hn

theorem names_turn (hs : WellCut s) (h : Turn dec s a s') (hrun : s'.running = true) :
    (s.route.names ≠ none → s'.route.names ≠ none) ∧
      ∀ unit, arrival .client ⟨s, a, s'⟩ = some unit → unit.initialNames dec ≠ none → s'.route.names ≠ none := by
  refine ⟨names_kept_turn hs h, fun unit harr hinitial => ?_⟩
  rcases arrival_turn h harr with ⟨rfl, _⟩ | ⟨rest, routed, route, batch, _, routes, rfl⟩
  · cases hrun
  cases hs.routing batch routes with
  | clip data channel push others names same =>
    -- The channel is known, so the names were.
    intro hn
    cases (hs.named (names ▸ hn)).symm.trans channel
  | initial => exact Option.some_ne_none _
  | response server => cases server
  | other off silent quiet dechunkers names same => exact fun hn => hinitial (quiet rfl (names ▸ hn))

theorem arrived (h : RelayRun dec hybridEx staging tr s) (hrun : s.running = true) : Arrived dec tr s := by
  revert hrun
  refine h.history (fun _ => ⟨by simp [arrivals], by simp [arrivals], by simp [arrivals], by simp [arrivals],
    by simp [arrivals]⟩) ?_
  intro tr s a s' hr ih hstep hrun
  have hturn := (turn hstep).2
  have ih := ih (running_of_turn hturn hrun)
  have hcut := wellCut hr
  obtain ⟨hkeep, hnew⟩ := names_turn hcut hturn hrun
  -- The last arrival is the unit this step routes, if it routes one.
  have hmem : ∀ {side : Side} {x : Arrival}, x ∈ arrivals side (tr ++ [⟨s, a, s'⟩]) →
      x ∈ arrivals side tr ∨ ∃ unit, arrival side ⟨s, a, s'⟩ = some unit ∧ x = ⟨unit, s.route⟩ := by
    intro side x hx
    rw [arrivals_snoc, List.mem_append, Option.mem_toList] at hx
    refine hx.imp id fun hx => ?_
    obtain ⟨unit, hunit, rfl⟩ := Option.map_eq_some_iff.1 hx
    exact ⟨unit, hunit, rfl⟩
  refine ⟨fun side x hx => ?_, fun side x hx => ?_, fun side x hx c hc => ?_, fun x hx hx' => ?_, ?_⟩
  · rcases hmem hx with hx | ⟨unit, hunit, rfl⟩
    · exact ih.cut side x hx
    · rcases arrival_turn hturn hunit with ⟨rfl, _⟩ | ⟨rest, routed, route, batch, _⟩
      · cases hrun
      · exact hcut.batch _ _ batch _ (List.mem_cons_self ..)
  · rcases hmem hx with hx | ⟨unit, hunit, rfl⟩
    · exact ih.route side x hx
    · exact hcut.named
  · rcases hmem hx with hx | ⟨unit, hunit, rfl⟩
    · exact cliprdr_kept hcut hturn (ih.channel side x hx c hc)
    · exact cliprdr_kept hcut hturn hc
  · rcases hmem hx with hx | ⟨unit, hunit, rfl⟩
    · exact hkeep (ih.named x hx hx')
    · exact hnew unit hunit hx'
  · rw [arrivals_snoc]
    refine List.pairwise_append.2 ⟨ih.first, ?_, fun x hx y hy hx' => ?_⟩
    · cases (arrival .client ⟨s, a, s'⟩) <;> simp
    · obtain ⟨unit, _, rfl⟩ := Option.map_eq_some_iff.1 (Option.mem_toList.1 hy)
      exact ih.named x hx hx'

/-! ## Transparency -/

theorem findSize_sameHeader {v r h l : UInt8} {rest rest' : Bytes} {n : Nat}
    (hsize : findSize (v :: r :: h :: l :: rest) = .ok (some (.x224, n))) :
    findSize (v :: r :: h :: l :: rest') = .ok (some (.x224, n)) := by
  simp only [findSize, List.length_cons, tpktHeader_run] at hsize ⊢
  cases haction : Action.fromFpOutputHeader v with
  | none => simp [haction] at hsize
  | some action =>
    cases action with
    | fastPath =>
      cases hf : fastPathSize (r :: h :: l :: rest) with
      | error e => simp [haction, hf, Except.map] at hsize
      | ok size => cases size <;> simp [haction, hf, Except.map] at hsize
    | x224 =>
      simp only [haction, if_neg (show ¬rest.length + 1 + 1 + 1 < 3 by omega)] at hsize
      simp only [if_neg (show ¬rest'.length + 1 + 1 + 1 < 3 by omega)]
      by_cases hheader : v.toNat = 3 ∧ 7 ≤ h.toNat * 256 + l.toNat <;> simp_all

theorem isWhole_cleared {copy : Bytes} (hc : ClearedCopy unit copy) (hw : FrameUnit.IsWhole ⟨.tpkt, unit⟩) :
    FrameUnit.IsWhole ⟨.tpkt, copy⟩ := by
  obtain ⟨before, options, after, hlen, rfl, rfl⟩ := hc
  rw [isWhole_tpkt_iff] at hw ⊢
  have hlong : 4 ≤ (before ++ cliprdrField).length := by simp [cliprdrField]
  generalize before ++ cliprdrField = headed at hw hlong ⊢
  match headed, hlong with
  | v :: r :: h :: l :: headed, _ =>
    simp only [List.cons_append, List.length_cons, List.length_append, length_leBytes, hlen] at hw ⊢
    exact ⟨findSize_sameHeader hw.1, hw.2⟩

def written (s : Relay) (side : Side) : List Bytes := (s.wrote side).flatMap Item.units

def onChannel (side : Side) (channel : Nat) (unit : Bytes) : Bool :=
  (sendDataOf side unit).any (·.channelId == channel)

/-- What holds of the stream to a side after a run. -/
structure Transparent (dec : ConnectDecoders) (hybridEx : Bool) (tr : RelayTrace) (s : Relay) (side : Side) : Prop where
  /-- What was read from the other side is cut into the units routed and the units still to be
  routed, wherever the reads ended. -/
  framed : (Framer.new (side.other == .server) hybridEx).push (received side.other tr) =
    .ok ((arrivals side.other tr).map Arrival.unit ++ (s.intake side.other).batch.getD [], (s.intake side.other).framer)
  /-- What is written are whole units. -/
  whole : ∀ unit ∈ s.written side, ∃ kind, FrameUnit.IsWhole ⟨kind, unit⟩
  /-- Without the clipboard task's, what is written, queued and held back by the reader are the
  other side's units outside the clipboard channel. -/
  relayed : List.Forall₂ (SentAs dec side.other) ((arrivals side.other tr).filter (!·.isClipboard side.other))
    (unitsFrom .reader (s.wrote side) ++ (unitsFrom .reader (s.toSide side) ++ (s.intake side.other).pass))
  /-- Only the first Connect Initial that can be decoded is routed before the names are known. -/
  first : (arrivals .client tr).Pairwise fun a b => a.unit.initialNames dec ≠ none → b.route.names ≠ none
  /-- What the clipboard task wrote, queued and has still to put is read as the PDUs it emitted. -/
  chunks : ∃ d : Dechunker, receive side.other {} (unitsFrom .clip (s.wrote side) ++
    (unitsFrom .clip (s.toSide side) ++ unitsTo side s.outs)) = .ok (emitted side tr, d) ∧ d.units = []
  /-- What is written of it is read as the first of them. -/
  read : ∃ pdus d, receive side.other {} (unitsFrom .clip (s.wrote side)) = .ok (pdus, d) ∧ pdus <+: emitted side tr
  /-- On the clipboard channel the clipboard task alone writes, unless a unit was on it before the
  channel was assigned. -/
  alone : ∀ c, s.route.cliprdr = some c →
    (∀ a ∈ arrivals side.other tr, a.route.cliprdr = none → ∀ sent, SentAs dec side.other a sent →
      onChannel side.other c sent = false) →
    (s.written side).filter (onChannel side.other c) = unitsFrom .clip (s.wrote side)

theorem mem_unitsFrom {items : List Item} (hitem : item ∈ items) (hunit : unit ∈ item.units) :
    unit ∈ unitsFrom item.sender items :=
  List.mem_flatMap.2 ⟨item, List.mem_filter.2 ⟨hitem, by simp⟩, hunit⟩

theorem filter_units {who : Sender} {p : Bytes → Bool} : ∀ {items : List Item},
    (∀ item ∈ items, ∀ unit ∈ item.units, p unit = (item.sender == who)) →
      (items.flatMap Item.units).filter p = unitsFrom who items
  | [], _ => rfl
  | item :: items, h => by
    have ih := filter_units fun i hi => h i (List.mem_cons_of_mem _ hi)
    have hitem := h item (List.mem_cons_self ..)
    rw [List.flatMap_cons, List.filter_append, ih]
    cases hwho : item.sender == who with
    | true => simp [unitsFrom, hwho, List.filter_eq_self.2 fun unit hunit => (hitem unit hunit).trans hwho]
    | false => simpa [unitsFrom, hwho] using fun unit hunit => (hitem unit hunit).trans hwho

theorem exists_arrival (h : RelayRun dec hybridEx staging tr s) (hrun : s.running = true)
    (hsent : sent ∈ s.relayed side) :
    ∃ a ∈ arrivals side tr, a.isClipboard side = false ∧ SentAs dec side a sent := by
  obtain ⟨i, rfl⟩ := List.get_of_mem hsent
  have hall := sentAs_relayed h side hrun
  have hi := lt_of_lt_of_eq i.isLt hall.length_eq.symm
  have hmem := List.mem_filter.1 (List.get_mem _ ⟨i, hi⟩)
  exact ⟨_, hmem.1, by simpa using hmem.2, hall.get hi i.isLt⟩

theorem channelUnit_proxied (h : RelayRun dec hybridEx staging tr s) (hunit : unit ∈ s.proxied side) :
    ∃ c, s.route.cliprdr = some c ∧ ChannelUnit side.other c unit := by
  obtain ⟨heq, hall⟩ := proxied_eq h side
  rw [heq] at hunit
  obtain ⟨em, hem, hunit⟩ := List.mem_flatMap.1 hunit
  obtain ⟨c, hc, hcarried⟩ := hall em hem
  exact ⟨c, hc, hcarried.units unit hunit⟩

theorem mem_written (hitem : item ∈ s.wrote side) (hunit : unit ∈ item.units) :
    item.sender = .reader ∧ unit ∈ s.relayed side.other ∨ item.sender = .clip ∧ unit ∈ s.proxied side := by
  have hsent : unit ∈ unitsFrom item.sender (s.sentTo side) :=
    mem_unitsFrom (List.mem_append_left _ hitem) hunit
  cases hsender : item.sender with
  | reader =>
    refine .inl ⟨rfl, List.mem_append_left _ ?_⟩
    rw [Side.other_other]
    exact hsender ▸ hsent
  | clip => exact .inr ⟨rfl, List.mem_append_left _ (hsender ▸ hsent)⟩

theorem isWhole_sentAs {a : Arrival} (ha : a.unit.Cut) (h : SentAs dec side a sent) :
    ∃ kind, FrameUnit.IsWhole ⟨kind, sent⟩ := by
  rcases h with rfl | ⟨_, _, ⟨names, hnames, _⟩, hcopy⟩
  · exact ⟨_, ha.whole⟩
  · have hkind : a.unit.kind = .tpkt := by
      unfold FrameUnit.initialNames at hnames
      split at hnames
      · assumption
      · cases hnames
    exact ⟨.tpkt, isWhole_cleared hcopy (hkind ▸ ha.whole)⟩

theorem onChannel_sentAs {a : Arrival} (hnamed : a.route.Named) (hc : a.route.cliprdr = some c)
    (hoff : a.isClipboard side = false) (h : SentAs dec side a sent) : onChannel side c sent = false := by
  rcases h with rfl | ⟨_, hnames, _⟩
  · unfold Arrival.isClipboard at hoff
    unfold onChannel
    split at hoff
    · rename_i d hd
      rw [hc] at hoff
      have hne : c ≠ d.channelId := by simpa using hoff
      simpa [hd] using hne.symm
    · rename_i hd
      simp [hd]
  · cases hc.symm.trans (hnamed hnames)

/-- **Transparency.** However the two streams are cut into reads and however the readers, the
clipboard task and the writers take turns, a running relay has written to each side whole units:
the other side's outside the clipboard channel, each once, in order and unchanged, but for the
copy of the first Connect Initial, and the clipboard task's PDUs, one after the other. -/
theorem relay_transparent (h : RelayRun dec hybridEx staging tr s) (hrun : s.running = true) (side : Side) :
    Transparent dec hybridEx tr s side := by
  have harrived := arrived h hrun
  have hchunks := receive_proxied h side
  rw [proxied, sentTo, unitsFrom_append, List.append_assoc] at hchunks
  refine ⟨framed_eq h side.other hrun, fun unit hunit => ?_, ?_, harrived.first, hchunks, ?_, fun c hc hearly => ?_⟩
  · obtain ⟨item, hitem, hunit⟩ := List.mem_flatMap.1 hunit
    rcases mem_written hitem hunit with ⟨_, hrelayed⟩ | ⟨_, hproxied⟩
    · obtain ⟨a, ha, _, has⟩ := exists_arrival h hrun hrelayed
      exact isWhole_sentAs (harrived.cut _ a ha) has
    · obtain ⟨c, _, hunit⟩ := channelUnit_proxied h hproxied
      exact ⟨.tpkt, hunit.whole⟩
  · have hrelayed := sentAs_relayed h side.other hrun
    rwa [Relay.relayed, Side.other_other, sentTo, unitsFrom_append, List.append_assoc] at hrelayed
  · obtain ⟨d, hd, _⟩ := hchunks
    exact receive_prefix hd
  · refine filter_units fun item hitem unit hunit => ?_
    rcases mem_written hitem hunit with ⟨hsender, hrelayed⟩ | ⟨hsender, hproxied⟩
    · obtain ⟨a, ha, hoff, has⟩ := exists_arrival h hrun hrelayed
      rw [hsender]
      cases hroute : a.route.cliprdr with
      | none => exact hearly a ha hroute unit has
      | some c' =>
        cases (harrived.channel _ a ha c' hroute).symm.trans hc
        exact onChannel_sentAs (harrived.route _ a ha) hroute hoff has
    · obtain ⟨c', hc', hdata, _⟩ := channelUnit_proxied h hproxied
      cases hc.symm.trans hc'
      obtain ⟨d, hd, rfl⟩ := hdata
      rw [hsender]
      simp [onChannel, hd]

/-- A Monitor Ready PDU of the server, in one unit. -/
def ready : Bytes := (SendData.encode 26 ⟨1007, 1005, chunk 8 true true [1, 0, 0, 0, 0, 0, 0, 0]⟩).getD []

/-- It is read, handed over, passed by the clipboard task and written. -/
def readying : List Act :=
  [.read .server ready, .forward .server, .hand .server, .take ⟨0, .ok (), none, 0, {}⟩, .put, .write .client]

/-- The connection is set up, the server sends a Monitor Ready PDU, and it is written to the client:
two units are written to the client, one of them the clipboard task's. -/
theorem relay_transparent_ready :
    ∃ tr s, RelayRun (scriptDecoders [cliprdrField] [1005]) false ⟨0, 0⟩ tr s ∧ s.running = true ∧
      s.wrote .client = [⟨.reader, [connectUnit 0x66]⟩, ⟨.clip, [ready]⟩] ∧
      emitted .client tr = [[1, 0, 0, 0, 0, 0, 0, 0]] ∧
      ∀ side, Transparent (scriptDecoders [cliprdrField] [1005]) false tr s side := by
  obtain ⟨s, hr, hs⟩ := scriptedRelay_state (scriptDecoders [cliprdrField] [1005]) (connecting ++ readying)
    (fun s => s.running ∧ s.wrote .client = [⟨.reader, [connectUnit 0x66]⟩, ⟨.clip, [ready]⟩]) (by decide +kernel)
  obtain ⟨hrun, hwrote⟩ := of_decide_eq_true hs
  exact ⟨_, s, hr, hrun, hwrote, by decide +kernel, relay_transparent hr hrun⟩

/-- What a side reads on the clipboard channel are the first of the PDUs the clipboard task emitted. -/
def ReadsEmitted (tr : RelayTrace) (s : Relay) (side : Side) : Prop :=
  ∀ c, s.route.cliprdr = some c → ∃ pdus d,
    receive side.other {} ((s.written side).filter (onChannel side.other c)) = .ok (pdus, d) ∧ pdus <+: emitted side tr

/-- The client sends a PDU on the id before the Connect Response has assigned it. -/
def early : List Act :=
  [.read .client (connectUnit 0x65), .forward .client, .flush .client, .write .server,
    .read .client (request 1005), .forward .client, .flush .client, .write .server,
    .read .server (connectUnit 0x66), .forward .server]

/-- The PDU is relayed like any other unit, and the server reads on the channel what the clipboard task has not
emitted. -/
theorem early_unit_read : ¬ ∀ {dec : ConnectDecoders} {hybridEx : Bool} {staging : Staging} {tr : RelayTrace}
    {s : Relay}, RelayRun dec hybridEx staging tr s → s.running = true → ∀ side, ReadsEmitted tr s side := by
  intro hall
  obtain ⟨s, hr, hs⟩ := scriptedRelay_state (scriptDecoders [cliprdrField] [1005]) early
    (fun s => s.running ∧ s.route.cliprdr = some 1005 ∧ s.written .server = [connectUnit 0x65, request 1005])
    (by decide +kernel)
  obtain ⟨hrun, hchannel, hwritten⟩ := of_decide_eq_true hs
  obtain ⟨pdus, d, hread, hemitted⟩ := hall hr hrun .server 1005 hchannel
  have hpdus : ((receive .client {} ([connectUnit 0x65, request 1005].filter (onChannel .client 1005))).toOption.map
      Prod.fst) = some [[0]] := by decide +kernel
  have hnone : emitted .server (scriptedRelay (scriptDecoders [cliprdrField] [1005]) early) = [] := by decide +kernel
  rw [hwritten, show Side.server.other = .client from rfl] at hread
  rw [hread] at hpdus
  cases hpdus
  rw [hnone] at hemitted
  cases List.prefix_nil.1 hemitted

end Relay

end WebAccess.Scan
