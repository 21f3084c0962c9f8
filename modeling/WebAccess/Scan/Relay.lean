/-
`relay_scanned` of `proxy.rs`: the two readers, the clipboard task and the two writers of one
session, with the bounded queues between them. Each step below is what one of them does between
two points where it may wait, so a run is any interleaving of them, with any cutting of the two
streams into reads. The step relation is inverted once (`Turn`), and what the readers have sent on
is accounted for unit by unit (`relayed_turn`).
-/
import WebAccess.Scan.Framing
import WebAccess.Scan.Clip
import WebAccess.Lib.Transition
import Mathlib.Logic.Function.Basic

namespace WebAccess.Scan

open Codec Wire Transition

/-! ## The parts -/

/-- Who put a message into a writer's queue; the queue does not say. -/
inductive Sender
  | reader
  | clip
  deriving DecidableEq

/-- A message of a writer's queue. The source joins its units; they are joined here when it is
written. -/
structure Item where
  sender : Sender
  units : List Bytes
  deriving DecidableEq

/-- `Output`: what the clipboard task writes at once. -/
structure Output where
  side : Side
  units : List Bytes

/-- The outputs of an emission: a PDU of the proxy's own in one, a PDU passed on in one for each
unit it arrived in. -/
def Emission.outputs (em : Emission) : List Output :=
  match em.body with
  | .own _ units => [⟨em.side, units⟩]
  | .passed whole => whole.units.map fun unit => ⟨em.side, [unit]⟩

/-- A reader: `read_client` or `read_server` with the `forward` it awaits. It reads while it has no
batch; `handing` is the PDU it waits to send to the clipboard task. -/
structure Intake where
  framer : Framer
  batch : Option (List FrameUnit) := none
  pass : List Bytes := []
  handing : Option Whole := none

/-- The loop body of `forward` after a unit is routed. -/
def Intake.routed (i : Intake) (unit : FrameUnit) (rest : List FrameUnit) : Routed → Intake
  | .pass => { i with batch := some rest, pass := i.pass ++ [unit.bytes] }
  | .replace copy => { i with batch := some rest, pass := i.pass ++ [copy] }
  | .clip whole => { i with batch := some rest, handing := whole }

/-- `relay_scanned`: the shared router, the readers by the side they read from, the clipboard
task's input queue and the outputs it still has to write, the writers' queues and what was written,
by the side they write to. -/
structure Relay where
  route : Route := {}
  intake : Side → Intake
  queue : List Event := []
  session : Session
  outs : List Output := []
  toSide : Side → List Item := fun _ => []
  wrote : Side → List Item := fun _ => []
  running : Bool := true

/-- The size of each `mpsc::channel` -/
def capacity : Nat := 64

def readBuffer : Nat := 16 * 1024

/-- What one of the tasks does, or the network, a scan job or another session. `stop` is a close, an
end of stream or an error of the network. -/
inductive Act
  | read (side : Side) (bytes : Bytes)
  | forward (side : Side)
  | hand (side : Side)
  | flush (side : Side)
  | report (job : Job) (v : Verdict)
  | take (env : Env)
  | wake (env : Env)
  | stage (env : Env) (held : Nat)
  | put
  | write (side : Side)
  | stop

def Route.readUnit (dec : ConnectDecoders) (r : Route) (side : Side) (unit : FrameUnit) :
    Except RouteError (Routed × Route) :=
  match unit.kind, side with
  | .tpkt, .client => r.readClient dec unit.bytes
  | .tpkt, .server => r.readServer dec unit.bytes
  | _, _ => .ok (.pass, r)

namespace Relay

/-! ## Steps -/

/-- The session's future ends, and every part with it. -/
def ended (s : Relay) : Relay := { s with running := false }

def setIntake (s : Relay) (side : Side) (i : Intake) : Relay :=
  { s with intake := Function.update s.intake side i }

def enqueue (s : Relay) (side : Side) (item : Item) : Relay :=
  { s with toSide := Function.update s.toSide side (s.toSide side ++ [item]) }

/-- The scan jobs whose verdict waits in the clipboard task's queue. -/
def reported (s : Relay) : List Job :=
  s.queue.filterMap fun
    | .verdict job _ => some job
    | _ => none

/-- The clipboard task handles an event under the router as it is then; an error ends the session.
`queue` is what it leaves to handle later. -/
def handled (s : Relay) (env : Env) (event : Event) (queue : List Event) : Relay :=
  match s.session.step ⟨{ env with route := s.route }, event⟩ with
  | some session => { s with queue, session, outs := s.outs ++ session.clip.out.flatMap Emission.outputs }
  | none => s.ended

/-- One step of one part of a running session. -/
def act (dec : ConnectDecoders) (s : Relay) : Act → Option Relay
  | .read side bytes =>
    if (s.intake side).batch.isSome ∨ side = .server ∧ (bytes.isEmpty ∨ readBuffer < bytes.length) then none
    else match (s.intake side).framer.push bytes with
      | .error _ => some s.ended
      | .ok (units, framer) => some (s.setIntake side { s.intake side with framer, batch := some units })
  | .forward side =>
    match (s.intake side).batch, (s.intake side).handing with
    | some (unit :: rest), none =>
      match s.route.readUnit dec side unit with
      | .error _ => some s.ended
      | .ok (routed, route) =>
        some ({ s with route }.setIntake side ((s.intake side).routed unit rest routed))
    | _, _ => none
  | .hand side =>
    match (s.intake side).handing with
    | some whole =>
      if s.queue.length < capacity then
        some ({ s with queue := s.queue ++ [Event.pdu side whole] }.setIntake side
          { s.intake side with handing := none })
      else none
    | none => none
  | .flush side =>
    match (s.intake side).batch, (s.intake side).handing with
    | some [], none =>
      if (s.intake side).pass.isEmpty then some (s.setIntake side { s.intake side with batch := none })
      else if (s.toSide side.other).length < capacity then
        some ((s.enqueue side.other ⟨.reader, (s.intake side).pass⟩).setIntake side
          { s.intake side with batch := none, pass := [] })
      else none
    | _, _ => none
  | .report job v =>
    if job ∈ s.session.running.diff s.reported ∧ s.queue.length < capacity then
      some { s with queue := s.queue ++ [Event.verdict job v] }
    else none
  | .take env =>
    match s.queue, s.outs with
    | event :: rest, [] => some (s.handled env event rest)
    | _, _ => none
  | .wake env => if s.outs.isEmpty then some (s.handled env .deadline s.queue) else none
  | .stage env held => some (s.handled env (.staged held) s.queue)
  | .put =>
    match s.outs with
    | o :: rest =>
      if (s.toSide o.side).length < capacity then
        some ({ s with outs := rest }.enqueue o.side ⟨.clip, o.units⟩)
      else none
    | [] => none
  | .write side =>
    match s.toSide side with
    | item :: rest =>
      some { s with
        toSide := Function.update s.toSide side rest
        wrote := Function.update s.wrote side (s.wrote side ++ [item]) }
    | [] => none
  | .stop => some s.ended

/-- One step: nothing happens once the session has ended. -/
def step (dec : ConnectDecoders) (s : Relay) (a : Act) : Option Relay :=
  if s.running then s.act dec a else none

def start (hybridEx : Bool) (staging : Staging) : Relay where
  intake side := { framer := .new (side == .server) hybridEx }
  session := .start staging

/-! ## What a step is -/

/-- The label the clipboard task handles an event under. -/
def label (s : Relay) (env : Env) (event : Event) : Label := ⟨{ env with route := s.route }, event⟩

/-- The clipboard task has handled an event. -/
def answered (s : Relay) (session : Session) (queue : List Event) : Relay :=
  { s with queue, session, outs := s.outs ++ session.clip.out.flatMap Emission.outputs }

/-- The steps that can end the session, a unit that cannot be routed aside. -/
def Fallible : Act → Prop
  | .read _ _ | .take _ | .wake _ | .stage _ _ | .stop => True
  | _ => False

inductive Turn (dec : ConnectDecoders) (s : Relay) : Act → Relay → Prop
  | ended {a : Act} (fallible : Fallible a) : Turn dec s a s.ended
  | outOfStep {side : Side} {unit : FrameUnit} {rest : List FrameUnit} {e : RouteError}
      (batch : (s.intake side).batch = some (unit :: rest)) (routes : s.route.readUnit dec side unit = .error e) :
      Turn dec s (.forward side) s.ended
  | read {side : Side} {bytes : Bytes} {units : List FrameUnit} {framer : Framer}
      (idle : (s.intake side).batch = none) (push : (s.intake side).framer.push bytes = .ok (units, framer)) :
      Turn dec s (.read side bytes) (s.setIntake side { s.intake side with framer, batch := some units })
  | forward {side : Side} {unit : FrameUnit} {rest : List FrameUnit} {routed : Routed} {route : Route}
      (batch : (s.intake side).batch = some (unit :: rest)) (free : (s.intake side).handing = none)
      (routes : s.route.readUnit dec side unit = .ok (routed, route)) :
      Turn dec s (.forward side) ({ s with route }.setIntake side ((s.intake side).routed unit rest routed))
  | hand {side : Side} {whole : Whole} (handing : (s.intake side).handing = some whole)
      (room : s.queue.length < capacity) :
      Turn dec s (.hand side) ({ s with queue := s.queue ++ [Event.pdu side whole] }.setIntake side
        { s.intake side with handing := none })
  | idle {side : Side} (batch : (s.intake side).batch = some []) (free : (s.intake side).handing = none)
      (nothing : (s.intake side).pass = []) :
      Turn dec s (.flush side) (s.setIntake side { s.intake side with batch := none })
  | flush {side : Side} (batch : (s.intake side).batch = some []) (free : (s.intake side).handing = none)
      (held : (s.intake side).pass ≠ []) (room : (s.toSide side.other).length < capacity) :
      Turn dec s (.flush side) ((s.enqueue side.other ⟨.reader, (s.intake side).pass⟩).setIntake side
        { s.intake side with batch := none, pass := [] })
  | report {job : Job} {v : Verdict} (running : job ∈ s.session.running.diff s.reported) :
      Turn dec s (.report job v) { s with queue := s.queue ++ [Event.verdict job v] }
  | take {env : Env} {event : Event} {rest : List Event} {session : Session} (queue : s.queue = event :: rest)
      (free : s.outs = []) (step : s.session.step (s.label env event) = some session) :
      Turn dec s (.take env) (s.answered session rest)
  | wake {env : Env} {session : Session} (free : s.outs = [])
      (step : s.session.step (s.label env .deadline) = some session) :
      Turn dec s (.wake env) (s.answered session s.queue)
  | stage {env : Env} {held : Nat} {session : Session}
      (step : s.session.step (s.label env (.staged held)) = some session) :
      Turn dec s (.stage env held) (s.answered session s.queue)
  | put {o : Output} {rest : List Output} (outs : s.outs = o :: rest)
      (room : (s.toSide o.side).length < capacity) :
      Turn dec s .put ({ s with outs := rest }.enqueue o.side ⟨.clip, o.units⟩)
  | write {side : Side} {item : Item} {rest : List Item} (queue : s.toSide side = item :: rest) :
      Turn dec s (.write side) { s with
        toSide := Function.update s.toSide side rest
        wrote := Function.update s.wrote side (s.wrote side ++ [item]) }

theorem handled_cases (s : Relay) (env : Env) (event : Event) (queue : List Event) :
    s.handled env event queue = s.ended ∨ ∃ session, s.session.step (s.label env event) = some session ∧
      s.handled env event queue = s.answered session queue := by
  unfold handled
  split
  · rename_i session hstep
    exact .inr ⟨session, hstep, rfl⟩
  · exact .inl rfl

variable {dec : ConnectDecoders} {s s' : Relay} {a : Act}

theorem turn (h : s.step dec a = some s') : s.running = true ∧ Turn dec s a s' := by
  unfold step at h
  split at h
  case isFalse => cases h
  rename_i hrun
  refine ⟨hrun, ?_⟩
  cases a with
  | read side bytes =>
    simp only [act] at h
    split at h
    · cases h
    · rename_i hguard
      have hidle : (s.intake side).batch = none := by
        rw [← Option.not_isSome_iff_eq_none]
        exact fun hb => hguard (.inl hb)
      split at h
      · cases h
        exact .ended trivial
      · rename_i hpush
        cases h
        exact .read hidle hpush
  | forward side =>
    simp only [act] at h
    split at h
    · rename_i unit rest hbatch hfree
      split at h
      · rename_i herror
        cases h
        exact .outOfStep hbatch herror
      · rename_i hroute
        cases h
        exact .forward hbatch hfree hroute
    · cases h
  | hand side =>
    simp only [act] at h
    split at h
    · rename_i whole hhand
      split at h
      · rename_i hroom
        cases h
        exact .hand hhand hroom
      · cases h
    · cases h
  | flush side =>
    simp only [act] at h
    split at h
    · rename_i hbatch hfree
      split at h
      · rename_i hnil
        cases h
        exact .idle hbatch hfree (List.isEmpty_iff.1 hnil)
      · rename_i hheld
        split at h
        · rename_i hroom
          cases h
          exact .flush hbatch hfree (mt List.isEmpty_iff.2 hheld) hroom
        · cases h
    · cases h
  | report job v =>
    simp only [act] at h
    split at h
    · rename_i hjob
      cases h
      exact .report hjob.1
    · cases h
  | take env =>
    simp only [act] at h
    split at h
    · rename_i event rest hqueue houts
      cases h
      rcases s.handled_cases env event rest with heq | ⟨session, hstep, heq⟩ <;> rw [heq]
      · exact .ended trivial
      · exact .take hqueue houts hstep
    · cases h
  | wake env =>
    simp only [act] at h
    split at h
    · rename_i houts
      cases h
      rcases s.handled_cases env .deadline s.queue with heq | ⟨session, hstep, heq⟩ <;> rw [heq]
      · exact .ended trivial
      · exact .wake (List.isEmpty_iff.1 houts) hstep
    · cases h
  | stage env held =>
    cases h
    rcases s.handled_cases env (.staged held) s.queue with heq | ⟨session, hstep, heq⟩ <;> rw [heq]
    · exact .ended trivial
    · exact .stage hstep
  | put =>
    simp only [act] at h
    split at h
    · rename_i o rest houts
      split at h
      · rename_i hroom
        cases h
        exact .put houts hroom
      · cases h
    · cases h
  | write side =>
    simp only [act] at h
    split at h
    · rename_i item rest hqueue
      cases h
      exact .write hqueue
    · cases h
  | stop =>
    cases h
    exact .ended trivial

/-! ## What was sent to a side -/

/-- Everything put into the queue of a side's writer, written or not, oldest first. -/
def sentTo (s : Relay) (side : Side) : List Item := s.wrote side ++ s.toSide side

@[simp]
theorem sentTo_setIntake (s : Relay) (side side' : Side) (i : Intake) :
    (s.setIntake side i).sentTo side' = s.sentTo side' := rfl

@[simp]
theorem intake_setIntake (s : Relay) (side : Side) (i : Intake) : (s.setIntake side i).intake side = i := by
  simp [setIntake]

theorem intake_setIntake_of_ne {side side' : Side} (s : Relay) (i : Intake) (h : side' ≠ side) :
    (s.setIntake side i).intake side' = s.intake side' := by
  simp [setIntake, h]

theorem forall_setIntake {P : Side → Intake → Prop} {s : Relay} {side : Side} {i : Intake} (hi : P side i)
    (hs : ∀ side', side' ≠ side → P side' (s.intake side')) (side' : Side) :
    P side' ((s.setIntake side i).intake side') := by
  by_cases h : side' = side
  · subst h
    rwa [intake_setIntake]
  · rw [intake_setIntake_of_ne s i h]
    exact hs side' h

/-- What a step does not change of one reader, it changes of neither. -/
theorem intake_setIntake_congr {α : Type} {s : Relay} {side : Side} {i : Intake} (f : Intake → α)
    (h : f i = f (s.intake side)) (side' : Side) : f ((s.setIntake side i).intake side') = f (s.intake side') :=
  forall_setIntake (P := fun side' j => f j = f (s.intake side')) h (fun _ _ => rfl) side'

@[simp]
theorem sentTo_enqueue (s : Relay) (side side' : Side) (item : Item) :
    (s.enqueue side item).sentTo side' = s.sentTo side' ++ if side' = side then [item] else [] := by
  by_cases h : side' = side
  · subst h
    simp [enqueue, sentTo]
  · simp [enqueue, sentTo, h]

/-- The message a step puts into the queue of a side's writer. -/
def sends (s : Relay) (side : Side) : Act → List Item
  | .flush from' => if side = from'.other ∧ (s.intake from').pass ≠ [] then [⟨.reader, (s.intake from').pass⟩] else []
  | .put => match s.outs with
    | o :: _ => if side = o.side then [⟨.clip, o.units⟩] else []
    | [] => []
  | _ => []

/-- Only a reader that ends its batch and the clipboard task put something into a writer's queue,
and a writer takes nothing out of what was sent. -/
theorem sentTo_turn (h : Turn dec s a s') (side : Side) : s'.sentTo side = s.sentTo side ++ s.sends side a := by
  cases h with
  | ended fallible => cases a <;> first | exact (List.append_nil _).symm | cases fallible
  | outOfStep | read | forward | hand | report | take | wake | stage => exact (List.append_nil _).symm
  | idle batch free nothing => simp [sends, nothing]
  | @flush side' batch free held room =>
    simp only [sends, sentTo_setIntake, sentTo_enqueue, held, ne_eq, not_false_eq_true, and_true]
  | put outs room =>
    simp only [sends, outs, sentTo_enqueue]
    rfl
  | @write side' item rest queue =>
    by_cases h : side = side'
    · subst h
      simp [sends, sentTo, queue]
    · simp [sends, sentTo, h]

end Relay

/-- The units one of the two put into a queue. -/
def unitsFrom (who : Sender) (items : List Item) : List Bytes :=
  (items.filter (·.sender == who)).flatMap Item.units

@[simp]
theorem unitsFrom_append (who : Sender) (xs ys : List Item) :
    unitsFrom who (xs ++ ys) = unitsFrom who xs ++ unitsFrom who ys := by simp [unitsFrom]

def unitsTo (side : Side) (outs : List Output) : List Bytes :=
  (outs.filter (·.side == side)).flatMap Output.units

@[simp]
theorem unitsTo_append (side : Side) (xs ys : List Output) :
    unitsTo side (xs ++ ys) = unitsTo side xs ++ unitsTo side ys := by simp [unitsTo]

/-- What routing a unit adds to what the reader passes on. -/
def Routed.sent (unit : FrameUnit) : Routed → List Bytes
  | .pass => [unit.bytes]
  | .replace copy => [copy]
  | .clip _ => []

theorem Intake.batch_routed (i : Intake) (unit : FrameUnit) (rest : List FrameUnit) (routed : Routed) :
    (i.routed unit rest routed).batch = some rest := by
  cases routed <;> rfl

theorem Intake.pass_routed (i : Intake) (unit : FrameUnit) (rest : List FrameUnit) (routed : Routed) :
    (i.routed unit rest routed).pass = i.pass ++ routed.sent unit := by
  cases routed <;> simp [Intake.routed, Routed.sent]

namespace Relay

/-! ## What the readers passed on -/

/-- The units the reader of a side has passed on: written, queued, or kept to the end of its batch. -/
def relayed (s : Relay) (side : Side) : List Bytes :=
  unitsFrom .reader (s.sentTo side.other) ++ (s.intake side).pass

/-- The units the clipboard task has for a side: written, queued, or still to be put. -/
def proxied (s : Relay) (side : Side) : List Bytes :=
  unitsFrom .clip (s.sentTo side) ++ unitsTo side s.outs

def arrival (side : Side) (e : Entry Relay Act) : Option FrameUnit :=
  match e.label with
  | .forward side' => if side' = side then (e.pre.intake side).batch.bind List.head? else none
  | _ => none

def passedOn (dec : ConnectDecoders) (side : Side) (e : Entry Relay Act) : List Bytes :=
  match arrival side e with
  | some unit =>
    match e.pre.route.readUnit dec side unit with
    | .ok (routed, _) => routed.sent unit
    | .error _ => []
  | none => []

variable {s : Relay}

theorem relayed_turn {dec : ConnectDecoders} {s' : Relay} {a : Act} (h : Turn dec s a s') (side : Side) :
    s'.relayed side = s.relayed side ++ passedOn dec side ⟨s, a, s'⟩ := by
  have key : unitsFrom .reader (s.sends side.other a) ++ (s'.intake side).pass =
      (s.intake side).pass ++ passedOn dec side ⟨s, a, s'⟩ := by
    cases h with
    | ended fallible => cases a <;> first | exact (List.append_nil _).symm | cases fallible
    | @outOfStep side' unit rest e batch routes =>
      by_cases hs : side' = side
      · subst hs
        simp [sends, unitsFrom, passedOn, arrival, batch, routes, ended]
      · simp [sends, unitsFrom, passedOn, arrival, hs, ended]
    | report | take | wake | stage | write => exact (List.append_nil _).symm
    | read | hand => exact (intake_setIntake_congr Intake.pass (by rfl) side).trans (List.append_nil _).symm
    | @forward side' unit rest routed route batch free routes =>
      by_cases hs : side' = side
      · subst hs
        simp [sends, unitsFrom, passedOn, arrival, batch, routes, Intake.pass_routed]
      · rw [intake_setIntake_of_ne _ _ (Ne.symm hs)]
        simp [sends, unitsFrom, passedOn, arrival, hs]
    | @idle side' batch free nothing =>
      have hpass := intake_setIntake_congr (i := { s.intake side' with batch := none }) Intake.pass rfl side
      simpa [sends, nothing, unitsFrom, passedOn, arrival] using hpass
    | @flush side' batch free held room =>
      by_cases hs : side = side'
      · subst hs
        simp [sends, held, unitsFrom, passedOn, arrival]
      · have hother : side.other ≠ side'.other := by cases side <;> cases side' <;> simp_all [Side.other]
        rw [intake_setIntake_of_ne _ _ hs]
        simp [sends, hother, unitsFrom, passedOn, arrival, enqueue]
    | @put o rest outs room =>
      by_cases hs : side.other = o.side <;> simp [sends, outs, unitsFrom, passedOn, arrival, hs, enqueue]
  rw [relayed, sentTo_turn h, unitsFrom_append, List.append_assoc, key, relayed, List.append_assoc]

end Relay

/-! ## What routing a unit is -/

/-- The Send Data PDU a unit of a side is: a request from the client, an indication from the server. -/
def sendDataOf (side : Side) (unit : Bytes) : Option SendData :=
  match side, McsMessage.ofUnit unit with
  | .client, some (.sendDataRequest d) => some d
  | .server, some (.sendDataIndication d) => some d
  | _, _ => none

variable {d : SendData}

def Side.message (side : Side) (d : SendData) : McsMessage :=
  match side with
  | .client => .sendDataRequest d
  | .server => .sendDataIndication d

theorem sendDataOf_eq_some {side : Side} {unit : Bytes} :
    sendDataOf side unit = some d ↔ McsMessage.ofUnit unit = some (side.message d) := by
  unfold sendDataOf
  cases side <;> rcases McsMessage.ofUnit unit with _ | _ | _ | _ <;> simp [Side.message]

/-- What has come of a PDU from a side whose last chunk is to come. -/
def Route.dechunker (r : Route) : Side → Dechunker
  | .client => r.fromClient
  | .server => r.fromServer

/-- The channel is known only once the names are. -/
def Route.Named (r : Route) : Prop := r.names = none → r.cliprdr = none

def FrameUnit.initialNames (dec : ConnectDecoders) (unit : FrameUnit) : Option (List Text) :=
  if unit.kind = .tpkt then
    ((x224Data unit.bytes).bind dec.channelNames).map (·.map fun n => (channelNameStr n).getD [])
  else none

inductive Routing (dec : ConnectDecoders) (side : Side) (r : Route) (unit : FrameUnit) : Routed → Route → Prop
  | clip {d : SendData} {whole : Option Whole} {r' : Route} (data : sendDataOf side unit.bytes = some d)
      (channel : r.cliprdr = some d.channelId)
      (push : (r.dechunker side).push d.userData unit.bytes = .ok (whole, r'.dechunker side))
      (others : r'.dechunker side.other = r.dechunker side.other) (names : r'.names = r.names)
      (same : r'.cliprdr = r.cliprdr) : Routing dec side r unit (.clip whole) r'
  | initial {names : List Text} {routed : Routed} (client : side = .client) (unnamed : r.names = none)
      (kind : unit.kind = .tpkt) (decoded : unit.initialNames dec = some names)
      (routes : routed = .pass ∨ ∃ copy, routed = .replace copy ∧ names.contains cliprdrName = true ∧
        noCompression unit.bytes = some copy) :
      Routing dec side r unit routed { r with names := some names }
  | response {names : List Text} {ids : List Nat} (server : side = .server) (kind : unit.kind = .tpkt)
      (unknown : r.cliprdr = none) (decoded : r.connectResponse dec unit.bytes = some (names, ids)) :
      Routing dec side r unit .pass { r with cliprdr := Route.channelOf names ids }
  | other {r' : Route} (off : ∀ d, sendDataOf side unit.bytes = some d → r.cliprdr ≠ some d.channelId)
      (silent : side = .server → unit.kind = .tpkt → r.connectResponse dec unit.bytes = none)
      (quiet : side = .client → r.names = none → unit.initialNames dec = none)
      (dechunkers : r'.dechunker = r.dechunker) (names : r'.names = r.names) (same : r'.cliprdr = r.cliprdr) :
      Routing dec side r unit .pass r'

namespace Route

variable {dec : ConnectDecoders} {r r' : Route} {unit : FrameUnit} {routed : Routed}

theorem readClient_routing (hr : r.Named) (hkind : unit.kind = .tpkt)
    (h : r.readClient dec unit.bytes = .ok (routed, r')) : Routing dec .client r unit routed r' := by
  unfold readClient at h
  split at h
  · rename_i hnone
    have hnames : r.names = none := Option.isNone_iff_eq_none.1 hnone
    have hoff := hr hnames
    split at h
    · rename_i hdec
      cases h
      exact .other (by simp [hoff]) (by simp) (fun _ _ => by simp [FrameUnit.initialNames, hdec]) rfl rfl rfl
    · rename_i names hdec
      simp only [Except.ok.injEq, Prod.mk.injEq] at h
      obtain ⟨hrouted, rfl⟩ := h
      refine .initial rfl hnames hkind (by simp [FrameUnit.initialNames, hkind, hdec]) ?_
      split at hrouted
      · rename_i hcontains
        cases hc : noCompression unit.bytes with
        | none => exact .inl (by simpa [hc] using hrouted.symm)
        | some copy => exact .inr ⟨copy, by simpa [hc] using hrouted.symm, hcontains, rfl⟩
      · exact .inl (by simpa using hrouted.symm)
  · rename_i hsome
    have hquiet : Side.client = .client → r.names = none → unit.initialNames dec = none := fun _ hn => by
      simp [hn] at hsome
    split at h
    · rename_i d hd
      have hdata : sendDataOf .client unit.bytes = some d := sendDataOf_eq_some.2 hd
      simp only at h
      split at h
      · rename_i hchannel
        obtain ⟨⟨whole, m⟩, hp, h⟩ := bind_ok h
        cases h
        exact .clip hdata hchannel.symm hp rfl rfl rfl
      · rename_i hchannel
        cases h
        refine .other (fun d' hd' => ?_) (by simp) hquiet (by funext side; cases side <;> rfl) rfl rfl
        cases hdata.symm.trans hd'
        exact Ne.symm hchannel
    · rename_i hnot
      cases h
      exact .other (fun d hd => absurd (sendDataOf_eq_some.1 hd) (hnot d)) (by simp) hquiet rfl rfl rfl

theorem readServer_routing (hkind : unit.kind = .tpkt) (h : r.readServer dec unit.bytes = .ok (routed, r')) :
    Routing dec .server r unit routed r' := by
  unfold readServer at h
  split at h
  · rename_i names ids hresp
    cases h
    refine .response rfl hkind ?_ hresp
    unfold connectResponse at hresp
    split at hresp
    · rename_i hnone
      exact Option.isNone_iff_eq_none.1 hnone
    · cases hresp
  · rename_i hresp
    split at h
    · rename_i d hd
      have hdata : sendDataOf .server unit.bytes = some d := sendDataOf_eq_some.2 hd
      simp only at h
      split at h
      · rename_i hchannel
        obtain ⟨⟨whole, m⟩, hp, h⟩ := bind_ok h
        cases h
        exact .clip hdata hchannel.symm hp rfl rfl rfl
      · rename_i hchannel
        cases h
        refine .other (fun d' hd' => ?_) (fun _ _ => hresp) (by simp) (by funext side; cases side <;> rfl) rfl rfl
        cases hdata.symm.trans hd'
        exact Ne.symm hchannel
    · rename_i hnot
      cases h
      exact .other (fun d hd => absurd (sendDataOf_eq_some.1 hd) (hnot d)) (fun _ _ => hresp) (by simp) rfl rfl rfl

theorem readUnit_routing {side : Side} (hr : r.Named) (hunit : unit.Cut)
    (h : r.readUnit dec side unit = .ok (routed, r')) : Routing dec side r unit routed r' := by
  by_cases hkind : unit.kind = .tpkt
  · cases side with
    | client => exact readClient_routing hr hkind (by simpa [readUnit, hkind] using h)
    | server => exact readServer_routing hkind (by simpa [readUnit, hkind] using h)
  · have hpass : r.readUnit dec side unit = .ok (.pass, r) := by
      unfold readUnit
      split <;> simp_all
    rw [hpass] at h
    cases h
    refine .other ?_ (fun _ hk => absurd hk hkind) (fun _ _ => by simp [FrameUnit.initialNames, hkind]) rfl rfl rfl
    simp [sendDataOf_eq_some, ofUnit_eq_none (hunit.notTpkt hkind)]

end Route

variable {unit : FrameUnit} {dec : ConnectDecoders} {side : Side} {r r' : Route} {routed : Routed}

theorem Routing.named (hr : r.Named) (h : Routing dec side r unit routed r') : r'.Named := by
  cases h with
  | clip data channel push others names same =>
    intro hn
    rw [same]
    exact hr (names ▸ hn)
  | initial => exact fun hn => by cases hn
  | response server kind unknown decoded =>
    intro hn
    unfold Route.connectResponse at decoded
    rw [show r.names = none from hn] at decoded
    split at decoded <;> cases decoded
  | other off silent quiet dechunkers names same =>
    intro hn
    rw [same]
    exact hr (names ▸ hn)

theorem Routing.cliprdr_kept {c : Nat} (h : Routing dec side r unit routed r') (hc : r.cliprdr = some c) :
    r'.cliprdr = some c := by
  cases h with
  | clip data channel push others names same => rw [same, hc]
  | initial => exact hc
  | response server kind unknown decoded =>
    rw [unknown] at hc
    cases hc
  | other off silent quiet dechunkers names same => rw [same, hc]

theorem Routing.dechunker_kept {side' : Side} (h : Routing dec side r unit routed r') (hne : side' ≠ side) :
    r'.dechunker side' = r.dechunker side' := by
  obtain rfl : side' = side.other := by cases side <;> cases side' <;> simp_all [Side.other]
  cases h with
  | clip data channel push others => exact others
  | initial | response => cases side <;> rfl
  | other off silent quiet dechunkers => rw [dechunkers]

theorem Routing.names_kept (h : Routing dec side r unit routed r') (hn : r.names ≠ none) : r'.names ≠ none := by
  cases h with
  | clip data channel push others names same => exact names ▸ hn
  | initial => exact Option.some_ne_none _
  | response => exact hn
  | other off silent quiet dechunkers names same => exact names ▸ hn

/-! ## Runs -/

abbrev RelayTrace := List (Entry Relay Act)

/-- The runs of a relay from its start. -/
abbrev RelayRun (dec : ConnectDecoders) (hybridEx : Bool) (staging : Staging) : RelayTrace → Relay → Prop :=
  Run (fun s a s' => s.step dec a = some s') (Relay.start hybridEx staging)

namespace Relay

variable {dec : ConnectDecoders} {hybridEx : Bool} {staging : Staging} {tr : RelayTrace} {s : Relay}

theorem relayed_eq (h : RelayRun dec hybridEx staging tr s) (side : Side) :
    s.relayed side = tr.flatMap (passedOn dec side) := by
  refine h.history rfl ?_
  intro tr s a s' _ ih hstep
  rw [relayed_turn (turn hstep).2, ih, List.flatMap_append]
  simp

variable {s' : Relay} {a : Act}

theorem arrival_turn (h : Turn dec s a s') (harr : arrival side ⟨s, a, s'⟩ = some unit) :
    (s' = s.ended ∧ ∃ e, s.route.readUnit dec side unit = .error e) ∨
      ∃ rest routed route, (s.intake side).batch = some (unit :: rest) ∧ (s.intake side).handing = none ∧
        s.route.readUnit dec side unit = .ok (routed, route) ∧
        s' = { s with route }.setIntake side ((s.intake side).routed unit rest routed) := by
  have hforward : a = .forward side ∧ (s.intake side).batch.bind List.head? = some unit := by
    unfold arrival at harr
    split at harr
    · rename_i side' ha
      split at harr
      · rename_i hs
        subst hs
        exact ⟨ha, harr⟩
      · cases harr
    · cases harr
  obtain ⟨rfl, hhead⟩ := hforward
  cases h with
  | ended fallible => cases fallible
  | outOfStep batch routes =>
    rw [batch] at hhead
    cases hhead
    exact .inl ⟨rfl, _, routes⟩
  | forward batch free routes =>
    rw [batch] at hhead
    cases hhead
    exact .inr ⟨_, _, _, batch, free, routes, rfl⟩

/-! ## What is in a batch is whole -/

/-- Every unit still to be routed was cut off whole, and the channel is not known before the names. -/
structure WellCut (s : Relay) : Prop where
  named : s.route.Named
  batch : ∀ side us, (s.intake side).batch = some us → ∀ u ∈ us, u.Cut

theorem WellCut.routing {rest : List FrameUnit} (hs : WellCut s) (batch : (s.intake side).batch = some (unit :: rest))
    (routes : s.route.readUnit dec side unit = .ok (routed, r')) : Routing dec side s.route unit routed r' :=
  Route.readUnit_routing hs.named (hs.batch _ _ batch _ (List.mem_cons_self ..)) routes

theorem WellCut.turn (hs : WellCut s) (h : Turn dec s a s') : WellCut s' := by
  -- Whatever one reader's batch becomes, the other reader's stays.
  have hset : ∀ {t : Relay} {side : Side} {i : Intake}, t.intake = s.intake → t.route.Named →
      (∀ us, i.batch = some us → ∀ u ∈ us, u.Cut) →
      WellCut (t.setIntake side i) := by
    intro t side i ht hn hi
    exact ⟨hn, forall_setIntake (P := fun _ i => ∀ us, i.batch = some us → ∀ u ∈ us, u.Cut) hi fun side' _ =>
      ht ▸ hs.batch side'⟩
  cases h with
  | ended | outOfStep | report | take | wake | stage | put | write => exact ⟨hs.named, hs.batch⟩
  | read idle push =>
    refine hset rfl hs.named fun us hus => ?_
    cases hus
    exact Framer.cut_of_cuts (Framer.push_eq_ok.1 push).1
  | forward batch free routes =>
    refine hset rfl ((hs.routing batch routes).named hs.named) fun us hus => ?_
    rw [Intake.batch_routed] at hus
    cases hus
    exact fun u hu => hs.batch _ _ batch u (List.mem_cons_of_mem _ hu)
  | hand => exact hset rfl hs.named fun us hus => hs.batch _ us hus
  | idle | flush => exact hset rfl hs.named fun us hus => by cases hus

theorem cliprdr_kept {c : Nat} (hs : WellCut s) (h : Turn dec s a s') (hc : s.route.cliprdr = some c) :
    s'.route.cliprdr = some c := by
  cases h with
  | forward batch free routes => exact (hs.routing batch routes).cliprdr_kept hc
  | _ => exact hc

theorem wellCut (h : RelayRun dec hybridEx staging tr s) : WellCut s :=
  h.invariant ⟨fun _ => rfl, fun _ _ hus => by cases hus⟩ fun _ _ _ hs hstep => hs.turn (turn hstep).2

end Relay

/-! ## Scripted relays -/

def scriptDecoders (names : List Bytes) (ids : List UInt16) : ConnectDecoders where
  channelNames data := if data = [0x7F, 0x65] then some names else none
  channelIds data := if data = [0x7F, 0x66] then some ids else none

/-- The Connect Initial and the Connect Response these decoders know, by their second tag byte. -/
def connectUnit (tag : UInt8) : Bytes := [3, 0, 0, 9, 2, 0xF0, 0x80, 0x7F, tag]

def connecting : List Act :=
  [.read .client (connectUnit 0x65), .forward .client, .flush .client, .write .server,
    .read .server (connectUnit 0x66), .forward .server, .flush .server, .write .client]

/-- A client's Send Data Request of one whole PDU of one byte. -/
def request (channel : Nat) : Bytes :=
  (SendData.encode 25 ⟨1007, channel, chunk 1 true true [0]⟩).getD []

def scriptedRelay (dec : ConnectDecoders) (acts : List Act) : RelayTrace :=
  trace (Relay.step dec) (Relay.start false ⟨0, 0⟩) acts

theorem scriptedRelay_state (dec : ConnectDecoders) (acts : List Act) (P : Relay → Bool)
    (h : (exec (Relay.step dec) (Relay.start false ⟨0, 0⟩) acts).any P = true) :
    ∃ s, RelayRun dec false ⟨0, 0⟩ (scriptedRelay dec acts) s ∧ P s = true :=
  run_of_exec _ _ _ P h

theorem scriptedRelay_run (dec : ConnectDecoders) (acts : List Act) (last : Act) (P : Relay → Relay → Bool)
    (h : (exec (Relay.step dec) (Relay.start false ⟨0, 0⟩) acts).any
      (fun s => (s.step dec last).any (P s)) = true) :
    ∃ s s', RelayRun dec false ⟨0, 0⟩ (scriptedRelay dec acts) s ∧ s.step dec last = some s' ∧ P s s' = true := by
  obtain ⟨s, hs, hlast⟩ := (Option.any_eq_true ..).1 h
  obtain ⟨s', hs', hP⟩ := (Option.any_eq_true ..).1 hlast
  exact ⟨s, s', run_trace (fun _ _ _ h => h) hs, hs', hP⟩

end WebAccess.Scan
