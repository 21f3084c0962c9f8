/-
What the tasks of the proxy share, and the calls they make on it. A task is a program over these
calls: each is one hold of the database's, the registry's, the tickets' or the notices' lock, and so
one step; between two calls of a task every other task may make any number of its own. The clocks
and the random sources are read at a call, and come with it. Beside those locks there is the gate,
which a task takes and gives back by calls of their own: a call that takes it waits while it is held
in a way that excludes it.
-/
import WebAccess.Lib.Gate
import WebAccess.Lib.Process
import WebAccess.Serve.Registry
import WebAccess.Store.Extends

namespace WebAccess

open Codec Wire Process

/-- What a call finds outside: the time of day in seconds, a monotonic clock in milliseconds, and
the next random integers, the next random token and the next random key. -/
structure World where
  now : Int := 0
  instant : Nat := 0
  randoms : Nat → Int := fun _ => 0
  token : Text := []
  key : Key := 0

/-- Who holds the gate: a request's task, or a connection that is being admitted. -/
inductive Holder
  | task (i : Nat)
  | session (id : Nat)
  deriving DecidableEq

/-- `App`: what the tasks share. `bootstrapAdmins` are the administrators the configuration names,
`hostName` and `protector` are the host's; `vault` is the master key in memory, none while the credential store is
locked; `exporting` is who has the export lock. `imports` counts the databases that have been put in
place, which nothing reads. -/
structure App where
  hostName : Text := []
  bootstrapAdmins : List Text := []
  protector : Protector := 0
  store : Store := {}
  vault : Option Key := none
  live : LiveSessions := {}
  tickets : Tickets := {}
  notices : Notices := {}
  gate : Gate Holder := {}
  exporting : Option Holder := none
  generation : Nat := 0
  imports : Nat := 0

inductive Call
  | acquire (h : Hold)
  | release
  | lockExport
  | unlockExport
  | now
  | randomKey
  | randomToken
  | isAdmin (user : User)
  | hostName
  | protector
  | counts
  | frozen
  | signinSecs
  | instanceId
  | userById (id : Int)
  | userByName (username : Text)
  | directoryUserBySid (sid : Text)
  | userRename (id incarnation : Int) (sid newName : Text)
  | userCreateReturning (username : Text) (displayName : Option Text)
  | userCreate (username : Text) (displayName : Option Text)
  | userRecordLogin (id incarnation : Int) (sid : Text) (displayName : Option Text)
  | localAccountSet (username hash sid : Text)
  | localHash (id : Int)
  | userFlagMismatch (id : Int)
  | userClearSid (id : Int)
  | userDelete (id : Int)
  | directoryUsersWithSessions
  | serverById (id : Int)
  | serverDelete (id : Int)
  | edit (e : Edit)
  | isAssigned (userId serverId : Int)
  | assignmentIds (userId : Int)
  | setAssignments (userId : Int) (ids : List Int)
  | credentialGet (userId serverId : Int)
  | credentialPut (userId serverId : Int) (stored : StoredCredential)
  | credentialDelete (userId serverId : Int)
  | sessionCreate (tokenHash : Bytes) (userId incarnation expires : Int)
  | sessionUser (tokenHash : Bytes)
  | adminToken (tokenHash : Bytes)
  | sessionDelete (tokenHash : Bytes)
  | sessionsDeleteUser (userId : Int)
  | sessionsPurge
  | incarnations (userId serverId : Int)
  | sessionEnded (userId userIncarnation serverId serverIncarnation : Int)
  | audit (line : AuditLine)
  | directoryPassword
  | setDirectoryPassword (value : Sealed Key Text)
  | masterLocal
  | setMasterLocal (wrapped : Sealed Protector Key)
  | masterRecovery
  | setMasterRecovery (wrapped : Sealed Text Key)
  | replaceSecrets (wrapped : Sealed Protector Key)
  | setFrozen (on : Bool)
  | setFreezePending (on : Bool)
  | snapshot
  | replaceWith (store : Store)
  | vaultKey
  | install (key : Key)
  | generation
  | bumpGeneration
  | register (user : User) (tokenHash : Bytes)
  | generationOf (liveId : Nat)
  | setServer (liveId : Nat) (serverId : Int)
  | setIncarnations (liveId : Nat) (rows : Int × Int)
  | sweep (w : Sweep)
  | userIds
  | issue (ticket : Ticket)
  | redeem (token : Text)
  | clearTickets
  | pushNotice (userId : Int) (text : Text) (bad : Bool) (database : Nat)
  | noticesSince (userId : Int) (after : Nat)

@[reducible]
def Call.Answer : Call → Type
  | acquire _ => Unit
  | release => Unit
  | lockExport => Unit
  | unlockExport => Unit
  | now => Int
  | randomKey => Key
  | randomToken => Text
  | isAdmin _ => Bool
  | hostName => Text
  | protector => Protector
  | counts => Counts
  | frozen => Bool
  | signinSecs => Int
  | instanceId => Option Text
  | userById _ => Option User
  | userByName _ => Option User
  | directoryUserBySid _ => Option User
  | userRename .. => Bool
  | userCreateReturning .. => Except StoreError User
  | userCreate .. => Except StoreError Int
  | userRecordLogin .. => Bool
  | localAccountSet .. => Except StoreError Int
  | localHash _ => Option Text
  | userFlagMismatch _ => Unit
  | userClearSid _ => Except StoreError Unit
  | userDelete _ => Except StoreError Unit
  | directoryUsersWithSessions => List User
  | serverById _ => Option Server
  | serverDelete _ => Except StoreError Unit
  | edit _ => Except StoreError Edited
  | isAssigned .. => Bool
  | assignmentIds _ => List Int
  | setAssignments .. => Except StoreError (Nat × Nat)
  | credentialGet .. => Option StoredCredential
  | credentialPut .. => Except StoreError Unit
  | credentialDelete .. => Bool
  | sessionCreate .. => Except StoreError Bool
  | sessionUser _ => Option User
  | adminToken _ => Bool
  | sessionDelete _ => Unit
  | sessionsDeleteUser _ => Unit
  | sessionsPurge => Unit
  | incarnations .. => Option (Int × Int)
  | sessionEnded .. => Bool
  | audit _ => Unit
  | directoryPassword => Option (Sealed Key Text)
  | setDirectoryPassword _ => Unit
  | masterLocal => Option (Sealed Protector Key)
  | setMasterLocal _ => Unit
  | masterRecovery => Option (Sealed Text Key)
  | setMasterRecovery _ => Unit
  | replaceSecrets _ => Nat
  | setFrozen _ => Unit
  | setFreezePending _ => Unit
  | snapshot => Store
  | replaceWith _ => Unit
  | vaultKey => Option Key
  | install _ => Unit
  | generation => Nat
  | bumpGeneration => Unit
  | register .. => Nat
  | generationOf _ => Option Nat
  | setServer .. => Unit
  | setIncarnations .. => Unit
  | sweep _ => Nat
  | userIds => List Int
  | issue _ => Text
  | redeem _ => Option Ticket
  | clearTickets => Unit
  | pushNotice .. => Unit
  | noticesSince .. => List Notice × Nat

/-- What a call is about: the gate, the export lock, nothing it changes, a user's row, an
administrator's edit, a revocation, sign-in sessions, saved credentials, the end of a connection,
the activity log, secrets in the database, the key in memory, the freeze, the swap of an import,
an upgrade, the entry of a connection, ends of connections, tickets, notices. -/
inductive Tag
  | gate
  | lock
  | look
  | user
  | edit
  | revoke
  | session
  | credential
  | ended
  | note
  | secret
  | vault
  | flag
  | swap
  | register
  | entry
  | sweep
  | ticket
  | notice
  deriving DecidableEq

def Call.tag : Call → Tag
  | acquire _ | release => .gate
  | lockExport | unlockExport => .lock
  | userRename .. | userCreateReturning .. | userCreate .. | userRecordLogin .. | localAccountSet ..
  | userFlagMismatch _ => .user
  | .edit _ => .edit
  | userClearSid _ | userDelete _ | serverDelete _ | setAssignments .. | sessionDelete _ | sessionsDeleteUser _ =>
    .revoke
  | sessionCreate .. | sessionsPurge => .session
  | credentialPut .. | credentialDelete .. => .credential
  | sessionEnded .. => .ended
  | audit _ => .note
  | setDirectoryPassword _ | setMasterLocal _ | setMasterRecovery _ | replaceSecrets _ => .secret
  | install _ => .vault
  | setFrozen _ | setFreezePending _ => .flag
  | replaceWith _ | bumpGeneration | clearTickets => .swap
  | .register .. => .register
  | setServer .. | setIncarnations .. => .entry
  | .sweep _ => .sweep
  | issue _ | redeem _ => .ticket
  | pushNotice .. => .notice
  | _ => .look

@[reducible]
def Api : Signature := ⟨Call, Call.Answer⟩

namespace App

def isAdmin (a : App) (user : User) : Bool := user.isAdmin || a.bootstrapAdmins.contains user.username

def write {β : Type} (a : App) (r : β × Store) : β × App := (r.1, { a with store := r.2 })

/-- A function of the registry that writes. -/
def writeLive {β : Type} (a : App) (r : β × LiveSessions) : β × App := (r.1, { a with live := r.2 })

/-- How a call of `me` is answered, and what it leaves. -/
def answer (me : Holder) (w : World) : (c : Call) → App → c.Answer × App
  | .acquire h, a => ((), { a with gate := a.gate.acquire me h })
  | .release, a => ((), { a with gate := a.gate.release me })
  | .lockExport, a => ((), { a with exporting := some me })
  | .unlockExport, a => ((), { a with exporting := none })
  | .now, a => (w.now, a)
  | .randomKey, a => (w.key, a)
  | .randomToken, a => (w.token, a)
  | .isAdmin user, a => (a.isAdmin user, a)
  | .hostName, a => (a.hostName, a)
  | .protector, a => (a.protector, a)
  | .counts, a => (a.store.counts, a)
  | .frozen, a => (a.store.frozen, a)
  | .signinSecs, a => (a.store.readSettings.signinSecs, a)
  | .instanceId, a => (a.store.instanceId, a)
  | .userById id, a => (a.store.userById id, a)
  | .userByName username, a => (a.store.userByName username, a)
  | .directoryUserBySid sid, a => (a.store.directoryUserBySid sid, a)
  | .userRename id incarnation sid newName, a => a.write (a.store.userRename id incarnation sid newName)
  | .userCreateReturning username displayName, a =>
    a.write (a.store.userCreateReturning username displayName (w.randoms 0))
  | .userCreate username displayName, a => a.write (a.store.userCreate username displayName (w.randoms 0))
  | .userRecordLogin id incarnation sid displayName, a =>
    a.write (a.store.userRecordLogin id incarnation sid displayName w.now)
  | .localAccountSet username hash sid, a => a.write (a.store.localAccountSet username hash sid (w.randoms 0))
  | .localHash id, a => (a.store.localHash id, a)
  | .userFlagMismatch id, a => a.write ((), a.store.userFlagMismatch id)
  | .userClearSid id, a => a.write (a.store.userClearSid id)
  | .userDelete id, a => a.write (a.store.userDelete id)
  | .directoryUsersWithSessions, a => (a.store.directoryUsersWithSessions w.now, a)
  | .serverById id, a => (a.store.serverById id, a)
  | .serverDelete id, a => a.write (a.store.serverDelete id)
  | .edit e, a => a.write (a.store.edit w.randoms e)
  | .isAssigned userId serverId, a => (a.store.isAssigned userId serverId, a)
  | .assignmentIds userId, a => (a.store.assignmentIds userId, a)
  | .setAssignments userId ids, a => a.write (a.store.setAssignments userId ids)
  | .credentialGet userId serverId, a => (a.store.credentialGet userId serverId, a)
  | .credentialPut userId serverId stored, a => a.write (a.store.credentialPut userId serverId stored)
  | .credentialDelete userId serverId, a => a.write (a.store.credentialDelete userId serverId)
  | .sessionCreate tokenHash userId incarnation expires, a =>
    a.write (a.store.sessionCreate tokenHash userId incarnation expires w.now)
  | .sessionUser tokenHash, a => (a.store.sessionUser tokenHash w.now, a)
  | .adminToken tokenHash, a => ((a.store.sessionUser tokenHash w.now).any a.isAdmin, a)
  | .sessionDelete tokenHash, a => a.write ((), a.store.sessionDelete tokenHash)
  | .sessionsDeleteUser userId, a => a.write ((), a.store.sessionsDeleteUser userId)
  | .sessionsPurge, a => a.write ((), a.store.sessionsPurge w.now)
  | .incarnations userId serverId, a => (a.store.incarnations userId serverId, a)
  | .sessionEnded userId userIncarnation serverId serverIncarnation, a =>
    a.write (a.store.sessionEnded userId userIncarnation serverId serverIncarnation w.now)
  | .audit line, a => a.write ((), a.store.audit line w.now)
  | .directoryPassword, a => (a.store.directoryPassword, a)
  | .setDirectoryPassword value, a => a.write ((), { a.store with directoryPassword := some value })
  | .masterLocal, a => (a.store.masterLocal, a)
  | .setMasterLocal wrapped, a => a.write ((), { a.store with masterLocal := some wrapped })
  | .masterRecovery, a => (a.store.masterRecovery, a)
  | .setMasterRecovery wrapped, a => a.write ((), { a.store with masterRecovery := some wrapped })
  | .replaceSecrets wrapped, a => a.write (a.store.replaceSecrets wrapped)
  | .setFrozen on, a => a.write ((), { a.store with frozen := on })
  | .setFreezePending on, a => a.write ((), { a.store with freezePending := on })
  | .snapshot, a => (a.store, a)
  | .replaceWith store, a => ((), { a with store, imports := a.imports + 1 })
  | .vaultKey, a => (a.vault, a)
  | .install key, a => ((), { a with vault := some key })
  | .generation, a => (a.generation, a)
  | .bumpGeneration, a => ((), { a with generation := a.generation + 1 })
  | .register user tokenHash, a => a.writeLive (a.live.register user.id tokenHash a.generation)
  | .generationOf liveId, a => (a.live.generationOf liveId, a)
  | .setServer liveId serverId, a => a.writeLive ((), a.live.setServer liveId serverId)
  | .setIncarnations liveId rows, a => a.writeLive ((), a.live.setIncarnations liveId rows)
  | .sweep w, a => a.writeLive (a.live.sweep w)
  | .userIds, a => (a.live.userIds, a)
  | .issue ticket, a => (w.token, { a with tickets := a.tickets.issue w.token ticket w.instant })
  | .redeem token, a =>
    let r := a.tickets.redeem token w.instant
    (r.1, { a with tickets := r.2 })
  | .clearTickets, a => ((), { a with tickets := a.tickets.clear })
  | .pushNotice userId text bad database, a =>
    ((), { a with notices := a.notices.push userId text bad database })
  | .noticesSince userId after, a => (a.notices.since userId after, a)

def blocks (a : App) : Call → Bool
  | .acquire h => a.gate.blocks h
  | .lockExport => a.exporting.isSome
  | _ => false

def serve (me : Holder) (w : World) (c : Call) (a : App) : Option (c.Answer × App) :=
  if a.blocks c then none else some (answer me w c a)

theorem served {α : Type} {me : Holder} {w : World} {t t' : Task Api α} {a a' : App} {e : Event Api}
    (h : t.step (serve me w) a = some (e, t', a')) :
    a.blocks e.call = false ∧ e.answer = (answer me w e.call a).1 ∧ a' = (answer me w e.call a).2 := by
  obtain ⟨hserve, -⟩ := Task.step_eq_some h
  unfold serve at hserve
  split at hserve
  · cases hserve
  · rename_i hblocks
    rw [Option.some_inj] at hserve
    exact ⟨Bool.eq_false_iff.2 hblocks, (congrArg Prod.fst hserve).symm, (congrArg Prod.snd hserve).symm⟩

end App

/-! ## What a call leaves -/

namespace Call

def writesUsers : Call → Bool
  | userClearSid _ | userDelete _ | edit _ | replaceWith _ => true
  | c => c.tag == .user

def writesGroups : Call → Bool
  | edit _ | replaceWith _ => true
  | _ => false

def writesServers : Call → Bool
  | serverDelete _ => true
  | c => c.writesGroups

def writesAssignments : Call → Bool
  | userDelete _ | serverDelete _ | setAssignments .. => true
  | c => c.writesGroups

def writesCredentials : Call → Bool
  | userClearSid _ | userDelete _ | serverDelete _ | setAssignments .. | replaceSecrets _ | replaceWith _ => true
  | c => c.tag == .credential

def writesSessions : Call → Bool
  | userClearSid _ | userDelete _ | sessionDelete _ | sessionsDeleteUser _ | replaceWith _ => true
  | c => c.tag == .session

/-- The calls that can bring a sign-in or a server back. -/
def renews : Call → Bool
  | sessionCreate .. | replaceWith _ => true
  | _ => false

def replaces : Call → Bool
  | replaceWith _ => true
  | _ => false

/-- The tables a call does not write are as they were, and sign-ins are only taken away but by the two. -/
structure Keeps (c : Call) (s s' : Store) : Prop where
  users : c.writesUsers = false → s'.users = s.users
  groups : c.writesGroups = false → s'.groups = s.groups
  servers : c.writesServers = false → s'.servers = s.servers
  assignments : c.writesAssignments = false → s'.assignments = s.assignments
  credentials : c.writesCredentials = false → s'.credentials = s.credentials
  sessions : c.writesSessions = false → s'.sessions = s.sessions
  fewer : c.renews = false → s'.sessions ⊆ s.sessions
  instanceId : c.replaces = false → s'.instanceId = s.instanceId

end Call

theorem App.keeps_answer (m : Holder) (w : World) (c : Call) (a : App) : c.Keeps a.store (answer m w c a).2.store := by
  cases c with
  | edit e =>
    have h := a.store.extends_edit w.randoms e
    exact ⟨nofun, nofun, nofun, nofun, fun _ => h.same Store.credentials, fun _ => h.sessions_eq,
      fun _ => h.sessions_eq ▸ List.Subset.refl _, fun _ => h.same Store.instanceId⟩
  | localAccountSet username hash sid =>
    obtain ⟨users, hstore⟩ := a.store.localAccountSet_rest username hash sid (w.randoms 0)
    simp only [answer, write, hstore]
    exact ⟨nofun, fun _ => rfl, fun _ => rfl, fun _ => rfl, fun _ => rfl, fun _ => rfl, fun _ => List.Subset.refl _,
      fun _ => rfl⟩
  | _ =>
    simp only [answer, write, writeLive, Store.userCreateReturning, Store.userCreate,
      Store.userClearSid, Store.userDelete,
      Store.serverDelete, Store.setAssignments, Store.credentialPut, Store.sessionCreate, Store.sessionEnded]
    repeat' split
    all_goals
      constructor <;> first
        | exact fun _ => rfl
        | exact fun _ => List.Subset.refl _
        | exact fun _ => List.filter_subset_self ..
        | exact Bool.noConfusion

@[reducible]
def ask (c : Call) : Prog Api c.Answer := .perform (F := Api) c

/-- What is done under a hold of the gate. -/
def holding {α : Type} (h : Hold) (p : Prog Api α) : Prog Api α := do
  ask (.acquire h)
  let r ← p
  ask .release
  pure r

def endUser (userId : Int) : Prog Api Nat := ask (.sweep (.user userId))

def endUserServer (userId serverId : Int) : Prog Api Nat := ask (.sweep (.userServer userId serverId))

def endServer (serverId : Int) : Prog Api Nat := ask (.sweep (.server serverId))

def endSession (tokenHash : Bytes) : Prog Api Nat := ask (.sweep (.session tokenHash))

def endAll : Prog Api Nat := ask (.sweep .all)

end WebAccess
