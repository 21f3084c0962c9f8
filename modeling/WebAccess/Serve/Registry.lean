/-
The registry of connections (`live.rs`) and the connect tickets (`auth.rs`). An entry is made when
a WebSocket is upgraded and holds the sending half of a one-shot channel; ending a connection
takes the sender out of its entry and sends. What the channel has delivered is kept apart from the
entry, as its receiver is: the connection's task sees it whether or not the entry is still there.
-/
import WebAccess.Store.Tables

namespace WebAccess

open Codec Wire

/-! ## Connections -/

/-- `Live`; `cancel` is whether the sender is still there. -/
structure Live where
  userId : Int
  tokenHash : Bytes
  serverId : Option Int := none
  established : Bool := false
  generation : Nat
  incarnations : Option (Int × Int) := none
  cancel : Bool := true

structure Ended where
  userId : Int
  serverId : Option Int
  established : Bool
  generation : Nat
  incarnations : Option (Int × Int)

/-- `LiveSessions`, and which of the channels have been sent on. -/
structure LiveSessions where
  inner : Nat → Option Live := fun _ => none
  next : Nat := 0
  fired : Nat → Bool := fun _ => false

namespace LiveSessions

def register (s : LiveSessions) (userId : Int) (tokenHash : Bytes) (generation : Nat) : Nat × LiveSessions :=
  (s.next, { s with
    inner := Function.update s.inner s.next (some { userId, tokenHash, generation })
    next := s.next + 1 })

def generationOf (s : LiveSessions) (id : Nat) : Option Nat := (s.inner id).map Live.generation

def modify (s : LiveSessions) (id : Nat) (f : Live → Live) : LiveSessions :=
  { s with inner := Function.update s.inner id ((s.inner id).map f) }

def setServer (s : LiveSessions) (id : Nat) (serverId : Int) : LiveSessions :=
  s.modify id fun l => { l with serverId := some serverId }

def setIncarnations (s : LiveSessions) (id : Nat) (rows : Int × Int) : LiveSessions :=
  s.modify id fun l => { l with incarnations := some rows }

def setEstablished (s : LiveSessions) (id : Nat) : LiveSessions :=
  s.modify id fun l => { l with established := true }

def remove (s : LiveSessions) (id : Nat) : Option Ended × LiveSessions :=
  ((s.inner id).map fun l => ⟨l.userId, l.serverId, l.established, l.generation, l.incarnations⟩,
    { s with inner := Function.update s.inner id none })

/-- `end_where`: how many were ended. -/
def endWhere (s : LiveSessions) (pred : Live → Bool) : Nat × LiveSessions :=
  let hit : Nat → Bool := fun id => (s.inner id).any fun l => pred l && l.cancel
  ((List.range s.next).countP hit, { s with
    inner := fun id => (s.inner id).map fun l => if pred l then { l with cancel := false } else l
    fired := fun id => s.fired id || hit id })

end LiveSessions

inductive Sweep
  | user (userId : Int)
  | userServer (userId serverId : Int)
  | server (serverId : Int)
  | session (tokenHash : Bytes)
  | all
  deriving DecidableEq

/-- The predicates `end_user`, `end_user_server`, `end_server`, `end_session` and `end_all` give
`end_where`. -/
def Sweep.hits : Sweep → Live → Bool
  | user userId, l => l.userId == userId
  | userServer userId serverId, l => l.userId == userId && l.serverId == some serverId
  | server serverId, l => l.serverId == some serverId
  | session tokenHash, l => l.tokenHash == tokenHash
  | all, _ => true

namespace LiveSessions

/-- `end_user`, `end_user_server`, `end_server`, `end_session`, `end_all` -/
def sweep (s : LiveSessions) (w : Sweep) : Nat × LiveSessions := s.endWhere w.hits

def userIds (s : LiveSessions) : List Int := (((List.range s.next).filterMap s.inner).map Live.userId).dedup

/-! ## Entries after a step -/

@[simp]
theorem inner_register (s : LiveSessions) (userId : Int) (tokenHash : Bytes) (generation : Nat) :
    (s.register userId tokenHash generation).2.inner =
      Function.update s.inner s.next (some { userId, tokenHash, generation }) := rfl

variable {id : Nat}

theorem inner_modify_of_ne (s : LiveSessions) {id' : Nat} (f : Live → Live) (h : id' ≠ id) :
    (s.modify id f).inner id' = s.inner id' := by
  simp [modify, h]

@[simp]
theorem inner_modify (s : LiveSessions) (id : Nat) (f : Live → Live) :
    (s.modify id f).inner id = (s.inner id).map f := by
  simp [modify]

variable {s : LiveSessions} {w : Sweep} {l : Live}

theorem inner_sweep (h : s.inner id = some l) :
    (s.sweep w).2.inner id = some (if w.hits l then { l with cancel := false } else l) := by
  simp [sweep, endWhere, h]

theorem fired_sweep (h : s.inner id = some l) : (s.sweep w).2.fired id = (s.fired id || (w.hits l && l.cancel)) := by
  simp [sweep, endWhere, h]

end LiveSessions

/-! ## Tickets -/

/-- `TICKET_TTL`, in milliseconds -/
def ticketTtl : Nat := 60000

structure Ticket where
  userId : Int
  serverId : Int

structure Issued where
  token : Text
  ticket : Ticket
  minted : Nat

structure Tickets where
  issued : List Issued := []

namespace Tickets

/-- `issue`, with the random token. -/
def issue (s : Tickets) (token : Text) (ticket : Ticket) (now : Nat) : Tickets :=
  let live := s.issued.filter fun i => decide (now - i.minted < ticketTtl)
  ⟨live.filter (·.token != token) ++ [⟨token, ticket, now⟩]⟩

/-- `redeem_at`: the ticket goes whether or not it is still valid. -/
def redeem (s : Tickets) (token : Text) (now : Nat) : Option Ticket × Tickets :=
  match s.issued.find? (·.token == token) with
  | none => (none, s)
  | some i => (if now - i.minted < ticketTtl then some i.ticket else none, ⟨s.issued.filter (·.token != token)⟩)

def clear (_ : Tickets) : Tickets := ⟨[]⟩

end Tickets

/-! ## Notices -/

/-- `Notice`, and the database the session it tells of was registered in, which nothing reads. -/
structure Notice where
  seq : Nat
  text : Text
  bad : Bool
  database : Nat

def noticesKept : Nat := 32

/-- `Notices`: the newest number, and the notices of each user. -/
structure Notices where
  last : Nat := 0
  of : Int → List Notice := fun _ => []

namespace Notices

/-- `push`: the newest notices of a user are kept. -/
def push (s : Notices) (userId : Int) (text : Text) (bad : Bool) (database : Nat) : Notices :=
  let q := s.of userId ++ [⟨s.last + 1, text, bad, database⟩]
  ⟨s.last + 1, Function.update s.of userId (q.drop (q.length - noticesKept))⟩

def since (s : Notices) (userId : Int) (after : Nat) : List Notice × Nat :=
  ((s.of userId).filter fun n => decide (after < n.seq), s.last)

end Notices

end WebAccess
