/-
What an admission has established. It records its server in the registry before its first check,
so that whatever a check finds, the entry of the connection already shows: a sweep for any of the
facts the connection stands on hits it. `Admitting` is the protocol that says so.
-/
import WebAccess.Serve.Grounds

namespace WebAccess

open Codec Wire Process

/-- The server an admission has recorded, and the facts it has checked. -/
structure Standing where
  server : Option Int := none
  grounds : List Ground := []

namespace Standing

/-- An admission changes its own entry only, and its server only before the first check. -/
def allows (liveId : Nat) (q : Standing) : Call → Prop
  | .setServer id _ => id = liveId ∧ q.grounds = []
  | .setIncarnations id _ => id = liveId
  | .acquire _ | .release | .generationOf _ | .generation | .redeem _ | .sessionUser _ | .serverById _
  | .isAssigned .. | .incarnations .. => True
  | _ => False

/-- What an answer tells of the user, the sign-in and the server of the connection. -/
def found (user : User) (tokenHash : Bytes) (q : Standing) : Event Api → List Ground
  | ⟨.sessionUser tokenHash', some u⟩ =>
    if tokenHash' = tokenHash ∧ u.id = user.id then [.signIn tokenHash user.id] else []
  | ⟨.serverById _, some v⟩ => if q.server = some v.id then [.server v.id] else []
  | ⟨.isAssigned userId serverId, true⟩ =>
    if userId = user.id ∧ q.server = some serverId then [.assignment userId serverId] else []
  | _ => []

def next (user : User) (tokenHash : Bytes) (q : Standing) : Event Api → Standing
  | ⟨.setServer _ serverId, _⟩ => { q with server := some serverId }
  | e => { q with grounds := q.grounds ++ q.found user tokenHash e }

end Standing

/-- What an admission does, in the order it does it. -/
abbrev Admitting (liveId : Nat) (user : User) (tokenHash : Bytes) : Protocol Api :=
  ⟨Standing, Standing.allows liveId, Standing.next user tokenHash⟩

/-- What a connection to a server stands on. -/
def stakes (user : User) (tokenHash : Bytes) (target : Server) : List Ground :=
  [.signIn tokenHash user.id, .server target.id, .assignment user.id target.id]

/-- A server is let through only if it is the one recorded and everything has been checked. -/
def Standing.Admits (user : User) (tokenHash : Bytes) (q : Standing) : Except Refusal Server → Prop
  | .ok target => q.server = some target.id ∧ ∀ g ∈ stakes user tokenHash target, g ∈ q.grounds
  | .error _ => True

section

variable {liveId : Nat} {user : User} {tokenHash : Bytes} {q : Standing}

theorem admitting_recordRows {target : Server} (hserver : q.server = some target.id)
    (hgrounds : ∀ g ∈ stakes user tokenHash target, g ∈ q.grounds) :
    (recordRows liveId user target).Obeys (Admitting liveId user tokenHash) (Standing.Admits user tokenHash) q := by
  refine ⟨trivial, fun rows => ?_⟩
  cases rows with
  | none => exact trivial
  | some rows =>
    refine ⟨rfl, fun _ => ⟨hserver, fun g hg => ?_⟩⟩
    simp only [Standing.next, Standing.found, List.append_nil]
    exact hgrounds g hg

theorem admitting_checkTicket (targetId : Text) (ticket : Ticket) (hq : q.grounds = []) :
    (checkTicket liveId user tokenHash targetId ticket).Obeys (Admitting liveId user tokenHash)
      (Standing.Admits user tokenHash) q := by
  refine obeys_call ⟨rfl, hq⟩ fun _ => obeys_call trivial fun session => ?_
  cases session with
  | none => exact trivial
  | some u =>
    by_cases hu : u.id = user.id
    · simp only [hu, beq_self_eq_true, if_true]
      refine obeys_bind.2 ?_
      unfold resolve
      split
      · exact trivial
      refine obeys_call trivial fun found => ?_
      cases found with
      | none => exact trivial
      | some server =>
        refine obeys_call trivial fun assigned => ?_
        cases assigned with
        | false => exact trivial
        | true =>
          simp only [if_true, obeys_pure]
          split
          · rename_i hid
            have hid' : server.id = ticket.serverId := beq_iff_eq.1 hid
            refine admitting_recordRows ?_ ?_
            · simp [Standing.next, hid']
            · simp [Standing.next, Standing.found, stakes, hu, hid']
          · exact trivial
    · simp only [hu, beq_iff_eq, if_false]
      exact trivial

theorem admitting_release {r : Except Refusal Server} (h : q.Admits user tokenHash r) :
    (ask .release >>= fun _ => (pure r : Prog Api (Except Refusal Server))).Obeys
      (Admitting liveId user tokenHash) (Standing.Admits user tokenHash) q := by
  refine obeys_call trivial fun _ => ?_
  cases r with
  | error _ => exact trivial
  | ok target =>
    refine ⟨h.1, fun g hg => ?_⟩
    simp only [Standing.next, Standing.found, List.append_nil]
    exact h.2 g hg

theorem admitting_admit (targetId proxyAuth : Text) :
    (admitSession liveId user tokenHash targetId proxyAuth).Obeys (Admitting liveId user tokenHash)
      (Standing.Admits user tokenHash) {} := by
  refine obeys_call trivial fun _ => obeys_bind.2 (Prog.Obeys.mono (fun q r h => admitting_release h) ?_)
  refine obeys_call trivial fun opened => obeys_call trivial fun generation => ?_
  split
  · refine obeys_call trivial fun ticket => ?_
    cases ticket with
    | none => exact trivial
    | some ticket =>
      simp only []
      split
      · exact admitting_checkTicket targetId ticket rfl
      · exact trivial
  · exact trivial

end

end WebAccess
