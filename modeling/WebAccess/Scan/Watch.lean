/-
What the relay watches. The clipboard channel's id is the one the Connect Response gives to the
first channel the Connect Initial named cliprdr. From the moment the Connect Response is read,
every Send Data PDU of either side on that id is taken out of the relayed stream and handed to the
clipboard task, or ends the session (`channels_watched`). A Connect Initial may name cliprdr more
than once; where the server gives the second one an id of its own, that channel is relayed like
any other (`second_channel_unwatched`). A Connect Response that is read before the Connect Initial
is not looked at.
-/
import WebAccess.Scan.Relay
import Mathlib.Data.List.TakeWhile

namespace WebAccess.Scan

open Codec Wire Transition

/-! ## What is handed to the clipboard task -/

namespace Relay

/-- The units of a side that wait: those of the PDU its reader is handing over, then those of the
PDU whose last chunk has not arrived. -/
def waiting (s : Relay) (side : Side) : List Bytes :=
  ((s.intake side).handing.map Whole.units).getD [] ++ (s.route.dechunker side).units

/-- The units of a side that a step gives to the clipboard task. -/
def handedOver (side : Side) (e : Entry Relay Act) : List Bytes :=
  match e.label with
  | .hand side' => if side' = side then ((e.pre.intake side).handing.map Whole.units).getD [] else []
  | _ => []

/-- The unit of a side that a step takes out of the relayed stream. -/
def takenOut (dec : ConnectDecoders) (side : Side) (e : Entry Relay Act) : List Bytes :=
  match arrival side e with
  | some unit =>
    match e.pre.route.readUnit dec side unit with
    | .ok (.clip _, _) => [unit.bytes]
    | _ => []
  | none => []

variable {dec : ConnectDecoders} {hybridEx : Bool} {staging : Staging} {tr : RelayTrace} {s s' : Relay} {a : Act}

variable {side : Side}

variable {side' : Side} {i : Intake} {p : List Text × List Nat}

theorem waiting_setIntake (h : i.handing = (s.intake side').handing) :
    (s.setIntake side' i).waiting side = s.waiting side := by
  simp only [waiting, intake_setIntake_congr Intake.handing h]
  rfl

theorem waiting_setIntake_of_ne (h : side' ≠ side) : (s.setIntake side i).waiting side' = s.waiting side' := by
  simp only [waiting, intake_setIntake_of_ne s i h]
  rfl

theorem waiting_turn (hs : WellCut s) (h : Turn dec s a s') (side : Side) :
    handedOver side ⟨s, a, s'⟩ ++ s'.waiting side = s.waiting side ++ takenOut dec side ⟨s, a, s'⟩ := by
  cases h with
  | ended fallible => cases a <;> first | exact (List.append_nil _).symm | cases fallible
  | @outOfStep side' unit rest e batch routes =>
    by_cases hs : side' = side
    · subst hs
      simp [handedOver, takenOut, arrival, batch, routes, waiting, ended]
    · simp [handedOver, takenOut, arrival, hs, waiting, ended]
  | report | take | wake | stage | put | write => exact (List.append_nil _).symm
  | read | idle | flush => exact (waiting_setIntake (by rfl)).trans (List.append_nil _).symm
  | @forward side' unit rest routed route batch free routes =>
    have hrouting := hs.routing batch routes
    by_cases hside : side = side'
    · subst hside
      simp only [handedOver, takenOut, arrival, batch, routes, waiting, intake_setIntake, free, if_true,
        Option.bind_some, List.head?_cons, List.nil_append, Option.map_none, Option.getD_none]
      cases hrouting with
      | clip data channel push => exact Dechunker.units_pushUpTo push
      | initial client unnamed kind decoded how =>
        rcases how with rfl | ⟨copy, rfl, -⟩ <;> cases side <;>
          simp [Intake.routed, free, setIntake, Route.dechunker]
      | response => cases side <;> simp [Intake.routed, free, setIntake, Route.dechunker]
      | other off silent quiet dechunkers => simp [Intake.routed, free, setIntake, dechunkers]
    · rw [waiting_setIntake_of_ne hside]
      simp [handedOver, takenOut, arrival, Ne.symm hside, waiting, hrouting.dechunker_kept hside]
  | @hand side' whole handing room =>
    by_cases hside : side = side'
    · subst hside
      simp [handedOver, takenOut, arrival, waiting, handing, setIntake]
    · rw [waiting_setIntake_of_ne hside]
      simp [handedOver, takenOut, arrival, waiting, Ne.symm hside]

/-- Every unit taken out of the stream was given to the clipboard task, in order and once, or
waits for the rest of its PDU. -/
theorem handed_eq (h : RelayRun dec hybridEx staging tr s) (side : Side) :
    tr.flatMap (handedOver side) ++ s.waiting side = tr.flatMap (takenOut dec side) := by
  refine h.history (by cases side <;> rfl) ?_
  intro tr s a s' hr ih hstep
  have hone := waiting_turn (wellCut hr) (turn hstep).2 side
  simp only [List.flatMap_append, List.flatMap_singleton, ← ih, List.append_assoc, hone]

/-! ## The channels of a Connect Response -/

/-- The ids of the Connect Response a unit is. -/
def responseIds (dec : ConnectDecoders) (unit : FrameUnit) : Option (List Nat) :=
  if unit.kind = .tpkt then ((x224Data unit.bytes).bind dec.channelIds).map (·.map UInt16.toNat) else none

/-- The channel names of the Connect Initial that comes in with a step. -/
def initialIn (dec : ConnectDecoders) (e : Entry Relay Act) : Option (List Text) :=
  (arrival .client e).bind (FrameUnit.initialNames dec)

/-- The channel ids of the Connect Response that comes in with a step. -/
def responseIn (dec : ConnectDecoders) (e : Entry Relay Act) : Option (List Nat) :=
  (arrival .server e).bind (responseIds dec)

/-- The names in the client's stream: those of its first Connect Initial. -/
def namesIn (dec : ConnectDecoders) (tr : RelayTrace) : Option (List Text) := tr.findSome? (initialIn dec)

/-- The ids in the server's stream: those of its first Connect Response. -/
def idsIn (dec : ConnectDecoders) (tr : RelayTrace) : Option (List Nat) := tr.findSome? (responseIn dec)

/-- What comes in before the Connect Response. -/
def untilResponse (dec : ConnectDecoders) (tr : RelayTrace) : RelayTrace :=
  tr.takeWhile fun e => (responseIn dec e).isNone

/-- An id given to a channel named cliprdr. -/
def Assigned (p : List Text × List Nat) (c : Nat) : Prop := ∃ i : Nat, p.1[i]? = some cliprdrName ∧ p.2[i]? = some c

/-- Every channel named cliprdr got the same id. -/
def OneChannel (p : List Text × List Nat) : Prop := ∀ c c', Assigned p c → Assigned p c' → c = c'

/-- The Connect Response comes in after the Connect Initial and gives every channel named cliprdr the same id. -/
def Settled (dec : ConnectDecoders) (tr : RelayTrace) : Prop :=
  ∀ names ids, namesIn dec tr = some names → idsIn dec tr = some ids →
    namesIn dec (untilResponse dec tr) = some names ∧ OneChannel (names, ids)

theorem channelOf_of_assigned {c : Nat} (hone : OneChannel p) (h : Assigned p c) :
    Route.channelOf p.1 p.2 = some c := by
  obtain ⟨i, hname, hid⟩ := h
  have hmem : cliprdrName ∈ p.1 := List.mem_of_getElem? hname
  obtain ⟨j, hj⟩ : ∃ j, p.1.findIdx? (· == cliprdrName) = some j := by
    rw [← Option.isSome_iff_exists, List.findIdx?_isSome]
    exact List.any_eq_true.2 ⟨_, hmem, by simp⟩
  obtain ⟨hlt, hfound, hfirst⟩ := List.findIdx?_eq_some_iff_getElem.1 hj
  have hji : j ≤ i := by
    by_contra hlt'
    obtain ⟨hi, heq⟩ := List.getElem?_eq_some_iff.1 hname
    exact hfirst i (by omega) (by simp [heq])
  have hlen : j < p.2.length := by
    obtain ⟨hi, -⟩ := List.getElem?_eq_some_iff.1 hid
    omega
  have hjc : Assigned p p.2[j] :=
    ⟨j, List.getElem?_eq_some_iff.2 ⟨hlt, by simpa using hfound⟩, List.getElem?_eq_getElem hlen⟩
  rw [Route.channelOf, hj, Option.bind_some, List.getElem?_eq_getElem hlen]
  exact congrArg some (hone _ _ hjc ⟨i, hname, hid⟩)

section Streams

variable {rest : RelayTrace} {e : Entry Relay Act} {names : List Text} {ids : List Nat}

theorem idsIn_append : idsIn dec (tr ++ rest) = (idsIn dec tr).or (idsIn dec rest) := List.findSome?_append
theorem namesIn_append : namesIn dec (tr ++ rest) = (namesIn dec tr).or (namesIn dec rest) := List.findSome?_append
theorem idsIn_singleton : idsIn dec [e] = responseIn dec e := List.findSome?_singleton ..
theorem namesIn_singleton : namesIn dec [e] = initialIn dec e := List.findSome?_singleton ..

theorem untilResponse_of_none (h : idsIn dec tr = none) (he : responseIn dec e ≠ none) :
    untilResponse dec (tr ++ [e]) = tr := by
  have hnone : ∀ e ∈ tr, (responseIn dec e).isNone = true := fun e he =>
    Option.isNone_iff_eq_none.2 (List.findSome?_eq_none_iff.1 h e he)
  rw [untilResponse, List.takeWhile_append_of_pos hnone, List.takeWhile_cons_of_neg (by simpa using he),
    List.append_nil]

theorem untilResponse_append (h : idsIn dec tr = some ids) : untilResponse dec (tr ++ rest) = untilResponse dec tr := by
  rw [untilResponse, untilResponse, List.takeWhile_append, if_neg]
  intro hlength
  have hall := List.takeWhile_eq_self_iff.1 ((List.takeWhile_prefix _).eq_of_length hlength)
  obtain ⟨e, he, hids⟩ := List.exists_of_findSome?_eq_some h
  simpa [hids] using hall e he

/-- What is settled when the Connect Response has come in stays so. -/
theorem Settled.before (h : Settled dec (tr ++ rest)) (hnames : namesIn dec (tr ++ rest) = some names)
    (hids : idsIn dec tr = some ids) : Settled dec tr ∧ namesIn dec tr = some names := by
  have hsame : untilResponse dec (tr ++ rest) = untilResponse dec tr := untilResponse_append hids
  have hwhole : idsIn dec (tr ++ rest) = some ids := by rw [idsIn_append, hids, Option.some_or]
  refine ⟨fun names' ids' hn hi => ?_, ?_⟩
  · rw [← hsame]
    exact h names' ids' (by rw [namesIn_append, hn, Option.some_or]) (by rw [idsIn_append, hi, Option.some_or])
  · have huntil := (h names ids hnames hwhole).1
    have hsplit := List.takeWhile_append_dropWhile (p := fun e => (responseIn dec e).isNone) (l := tr)
    rw [hsame] at huntil
    rw [← hsplit, namesIn_append]
    exact (congrArg (Option.or · _) huntil).trans (Option.some_or ..)

end Streams

/-- What the router knows of the two streams. -/
structure Tracked (dec : ConnectDecoders) (tr : RelayTrace) (s : Relay) : Prop where
  names : s.route.names = namesIn dec tr
  silent : idsIn dec tr = none → s.route.cliprdr = none
  known : ∀ names ids c, Settled dec tr → namesIn dec tr = some names → idsIn dec tr = some ids →
    Assigned (names, ids) c → s.route.cliprdr = some c

section Routing

variable {unit : FrameUnit} {r r' : Route} {routed : Routed}

theorem connectResponse_eq (hkind : unit.kind = .tpkt) (hnone : r.cliprdr = none) :
    r.connectResponse dec unit.bytes = r.names.bind fun names => (responseIds dec unit).map (names, ·) := by
  simp only [Route.connectResponse, hnone, Option.isNone_none, if_true, responseIds, hkind, Option.map_map]
  cases r.names <;> cases (x224Data unit.bytes).bind dec.channelIds <;> rfl

theorem routing_client (hr : r.Named) (h : Routing dec .client r unit routed r') :
    r'.names = r.names.or (unit.initialNames dec) ∧ r'.cliprdr = r.cliprdr := by
  cases h with
  | clip data channel push others names same =>
    have hnamed : r.names ≠ none := fun hn => absurd ((hr hn).symm.trans channel) nofun
    obtain ⟨known, hknown⟩ := Option.ne_none_iff_exists'.1 hnamed
    exact ⟨by rw [names, hknown, Option.some_or], same⟩
  | initial client unnamed kind decoded how => exact ⟨by rw [unnamed, decoded, Option.none_or], rfl⟩
  | response server => cases server
  | other off silent quiet dechunkers names same =>
    refine ⟨?_, same⟩
    rw [names]
    cases hn : r.names with
    | none => rw [quiet rfl hn, Option.none_or]
    | some known => rfl

theorem routing_server (h : Routing dec .server r unit routed r') :
    r'.names = r.names ∧ (responseIds dec unit = none → r'.cliprdr = r.cliprdr) ∧
    ∀ names ids, r.cliprdr = none → r.names = some names → responseIds dec unit = some ids →
      r'.cliprdr = Route.channelOf names ids := by
  cases h with
  | clip data channel push others names same =>
    exact ⟨names, fun _ => same, fun _ _ hnone => absurd (hnone.symm.trans channel) nofun⟩
  | initial client => cases client
  | @response names ids server kind unknown decoded =>
    rw [connectResponse_eq kind unknown] at decoded
    refine ⟨rfl, fun hnone => ?_, fun names' ids' _ hnames hids => ?_⟩
    · simp [hnone] at decoded
    · rw [hnames, hids] at decoded
      cases decoded
      rfl
  | other off silent quiet dechunkers names same =>
    refine ⟨names, fun _ => same, fun names' ids hnone hnames hids => ?_⟩
    have hkind := (Option.ite_none_right_eq_some.1 hids).1
    have hsilent := silent rfl hkind
    rw [connectResponse_eq hkind hnone, hnames, hids] at hsilent
    cases hsilent

end Routing

/-- The router learns the names and the channel from the units that come in. -/
theorem tracked_turn (hs : WellCut s) (h : Turn dec s a s') (hrun : s'.running = true) :
    s'.route.names = s.route.names.or (initialIn dec ⟨s, a, s'⟩) ∧
    (responseIn dec ⟨s, a, s'⟩ = none → s'.route.cliprdr = s.route.cliprdr) ∧
    ∀ names ids, s.route.cliprdr = none → s.route.names = some names → responseIn dec ⟨s, a, s'⟩ = some ids →
      s'.route.cliprdr = Route.channelOf names ids := by
  cases h with
  | ended | outOfStep => cases hrun
  | @forward side unit rest routed route batch free routes =>
    have hrouting := hs.routing batch routes
    cases side with
    | client =>
      obtain ⟨hnames, hsame⟩ := routing_client hs.named hrouting
      simp only [initialIn, responseIn, arrival, batch, if_true, Option.bind_some, List.head?_cons]
      exact ⟨hnames, fun _ => hsame, by rintro _ _ _ _ ⟨⟩⟩
    | server =>
      simp only [initialIn, responseIn, arrival, batch, if_true, Option.bind_some, List.head?_cons]
      exact (routing_server hrouting).imp (fun hnames => hnames.trans (Option.or_none ..).symm) id
  | read | hand | idle | flush | report | take | wake | stage | put | write =>
    exact ⟨(Option.or_none ..).symm, fun _ => rfl, by rintro _ _ _ _ ⟨⟩⟩

theorem tracked (h : RelayRun dec hybridEx staging tr s) (hrun : s.running = true) : Tracked dec tr s := by
  revert hrun
  refine h.history (fun _ => ⟨rfl, fun _ => rfl, nofun⟩) ?_
  intro tr s a s' hr ih hstep hrun
  have hturn := (turn hstep).2
  have ih := ih (turn hstep).1
  obtain ⟨hnames, hsilent, hknown⟩ := tracked_turn (wellCut hr) hturn hrun
  refine ⟨?_, fun hids => ?_, fun names ids c hsettled hn hi hc => ?_⟩
  · rw [hnames, namesIn_append, namesIn_singleton, ih.names]
  · rw [idsIn_append, idsIn_singleton, Option.or_eq_none_iff] at hids
    rw [hsilent hids.2, ih.silent hids.1]
  · cases hbefore : idsIn dec tr with
    | none =>
      have hnow : responseIn dec ⟨s, a, s'⟩ = some ids := by
        rwa [idsIn_append, hbefore, Option.none_or, idsIn_singleton] at hi
      obtain ⟨hn', hone⟩ := hsettled names ids hn hi
      rw [untilResponse_of_none hbefore (by simp [hnow])] at hn'
      rw [hknown names ids (ih.silent hbefore) (ih.names.trans hn') hnow]
      exact channelOf_of_assigned hone hc
    | some ids' =>
      rw [idsIn_append, hbefore, Option.some_or, Option.some.injEq] at hi
      subst hi
      obtain ⟨hsettled', hn'⟩ := hsettled.before hn hbefore
      exact cliprdr_kept (wellCut hr) hturn (ih.known names ids' c hsettled' hn' hbefore hc)

/-! ## Every clipboard channel is watched -/

/-- After the Connect Response, every Send Data PDU of either side on an id it gave to a channel that
the Connect Initial named cliprdr is taken out of the stream and not passed on, or ends the session;
what is taken out reaches the clipboard task, or waits for the rest of its PDU; and nothing else than
what was passed on is in the writers' queues as the readers' own. -/
structure Watched (dec : ConnectDecoders) (tr : RelayTrace) (s : Relay) : Prop where
  out : ∀ before after e side unit d names ids, tr = before ++ e :: after → arrival side e = some unit →
    sendDataOf side unit.bytes = some d → namesIn dec tr = some names → idsIn dec before = some ids →
    Assigned (names, ids) d.channelId →
    e.post.running = false ∨ takenOut dec side e = [unit.bytes] ∧ passedOn dec side e = []
  handed : ∀ side, tr.flatMap (handedOver side) ++ s.waiting side = tr.flatMap (takenOut dec side)
  forwarded : ∀ side, s.relayed side = tr.flatMap (passedOn dec side)

theorem out_turn {unit : FrameUnit} {d : SendData} (hs : WellCut s) (h : Turn dec s a s')
    (harr : arrival side ⟨s, a, s'⟩ = some unit) (hdata : sendDataOf side unit.bytes = some d)
    (hknown : s.route.cliprdr = some d.channelId) :
    s'.running = false ∨ takenOut dec side ⟨s, a, s'⟩ = [unit.bytes] ∧ passedOn dec side ⟨s, a, s'⟩ = [] := by
  rcases arrival_turn h harr with ⟨rfl, _⟩ | ⟨rest, routed, route, batch, _, routes, rfl⟩
  · exact .inl rfl
  refine .inr ?_
  cases hs.routing batch routes with
  | clip =>
    simp only [takenOut, passedOn, harr, routes, Routed.sent, and_self]
  | initial client unnamed =>
    rw [hs.named unnamed] at hknown
    cases hknown
  | response server kind unknown decoded =>
    rw [unknown] at hknown
    cases hknown
  | other off => exact absurd hknown (off d hdata)

/-- In every run in which the Connect Response comes after the Connect Initial and gives all the channels
named cliprdr one id, every clipboard channel is watched. -/
theorem channels_watched (h : RelayRun dec hybridEx staging tr s) (hsettled : Settled dec tr) : Watched dec tr s := by
  refine ⟨?_, handed_eq h, relayed_eq h⟩
  rintro before after e side unit d names ids rfl harr hdata hnames hids hassigned
  obtain ⟨hr, hstep⟩ := h.before
  obtain ⟨hrun, hturn⟩ := turn hstep
  obtain ⟨hsettled', hnames'⟩ := hsettled.before hnames hids
  have hknown := (tracked hr hrun).known names ids _ hsettled' hnames' hids hassigned
  exact out_turn (wellCut hr) hturn harr hdata hknown

/-- One channel named cliprdr, on which the client sends one PDU. -/
def oneRequest : List Act := connecting ++ [.read .client (request 1005), .forward .client, .hand .client]

/-- The response is read, the PDU is taken out, and only the connection units are passed on. -/
theorem channels_watched_one :
    ∃ tr s, RelayRun (scriptDecoders [cliprdrField] [1005]) false ⟨0, 0⟩ tr s ∧
      idsIn (scriptDecoders [cliprdrField] [1005]) tr = some [1005] ∧
      tr.flatMap (handedOver .client) = [request 1005] ∧ s.relayed .client = [connectUnit 0x65] ∧
      Watched (scriptDecoders [cliprdrField] [1005]) tr s := by
  obtain ⟨s, hr, hs⟩ := scriptedRelay_state (scriptDecoders [cliprdrField] [1005]) oneRequest
    (fun s => s.relayed .client = [connectUnit 0x65]) (by decide +kernel)
  have hscript : namesIn (scriptDecoders [cliprdrField] [1005]) (untilResponse (scriptDecoders [cliprdrField] [1005])
      (scriptedRelay (scriptDecoders [cliprdrField] [1005]) oneRequest)) = some [cliprdrName] := by decide +kernel
  refine ⟨_, s, hr, by decide +kernel, by decide +kernel, by simpa using hs, channels_watched hr ?_⟩
  intro names ids hnames _
  obtain rfl : [cliprdrName] = names := by
    have hwhole : namesIn (scriptDecoders [cliprdrField] [1005])
        (scriptedRelay (scriptDecoders [cliprdrField] [1005]) oneRequest) = some [cliprdrName] := by decide +kernel
    exact Option.some.inj (hwhole.symm.trans hnames)
  refine ⟨hscript, ?_⟩
  rintro c c' ⟨i, hi, hc⟩ ⟨j, hj, hc'⟩
  have hz : ∀ k : Nat, [cliprdrName][k]? = some cliprdrName → k = 0 := by
    intro k hk
    rcases k with _ | k
    · rfl
    · simp at hk
  rw [hz i hi] at hc
  rw [hz j hj] at hc'
  exact Option.some.inj (hc.symm.trans hc')

/-- Two channels named cliprdr with ids of their own: what the client sends on the second is
passed on to the server. -/
theorem second_channel_unwatched : ¬ ∀ {dec : ConnectDecoders} {hybridEx : Bool} {staging : Staging}
    {tr : RelayTrace} {s : Relay}, RelayRun dec hybridEx staging tr s → Watched dec tr s := by
  intro hall
  obtain ⟨s, s', hr, hstep, hs⟩ := scriptedRelay_run (scriptDecoders [cliprdrField, cliprdrField] [1005, 1006])
    (connecting ++ [.read .client (request 1006)]) (.forward .client)
    (fun s s' => decide (arrival .client ⟨s, .forward .client, s'⟩ = some ⟨.tpkt, request 1006⟩ ∧
      s'.running = true ∧ passedOn (scriptDecoders [cliprdrField, cliprdrField] [1005, 1006]) .client
        ⟨s, .forward .client, s'⟩ = [request 1006])) (by decide +kernel)
  obtain ⟨harr, hrunning, hpassed⟩ := of_decide_eq_true hs
  have hdata : sendDataOf .client (request 1006) = some ⟨1007, 1006, chunk 1 true true [0]⟩ := by decide +kernel
  have hnames : namesIn (scriptDecoders [cliprdrField, cliprdrField] [1005, 1006])
      (scriptedRelay (scriptDecoders [cliprdrField, cliprdrField] [1005, 1006])
        (connecting ++ [.read .client (request 1006)])) = some [cliprdrName, cliprdrName] := by decide +kernel
  have hout := (hall (hr.snoc hstep)).out _ [] ⟨s, .forward .client, s'⟩ .client ⟨.tpkt, request 1006⟩ _ _ [1005, 1006]
    rfl harr hdata (by rw [namesIn_append, hnames, Option.some_or]) (by decide +kernel) ⟨1, rfl, rfl⟩
  rcases hout with hended | ⟨_, hnone⟩
  · rw [hrunning] at hended
    cases hended
  · rw [hpassed] at hnone
    cases hnone

end Relay

end WebAccess.Scan
