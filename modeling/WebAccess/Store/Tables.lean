/-
The database as `store.rs` keeps it: the tables and the functions of `Store` on them, each one hold
of the connection and so one step. Ids come from sequences that are never set back
(`AUTOINCREMENT`). Deleting a row deletes the rows that refer to it (`ON DELETE CASCADE`), and a row
that refers to one that is not there is not inserted (`REFERENCES`). Of `meta` there is a field for
each value that is kept in it.
-/
import WebAccess.Lib.Aead
import WebAccess.Lib.Table
import WebAccess.Numerals
import Mathlib.Data.List.Sort

namespace WebAccess

open Codec Wire

/-! ## Rows -/

/-- A row of `users`. -/
structure User where
  id : Int
  username : Text
  displayName : Option Text := none
  sid : Option Text := none
  isAdmin : Bool := false
  sidMismatch : Bool := false
  lastLogin : Option Int := none
  localHash : Option Text := none
  incarnation : Int

/-- `User::local`: a local account signs in against a hash in this database. -/
def User.isLocal (u : User) : Bool := u.localHash.isSome

/-- A row of `server_groups`. -/
structure Group where
  id : Int
  name : Text
  sort : Int

/-- A row of `servers`. -/
structure Server where
  id : Int
  name : Text
  host : Text
  port : Nat
  groupId : Option Int := none
  domain : Option Text := none
  incarnation : Int

/-- A row of `sessions`. -/
structure SessionRow where
  tokenHash : Bytes
  userId : Int
  created : Int
  expires : Int
  deriving DecidableEq

/-- A master key; random keys are told apart by number. -/
abbrev Key := Nat

/-- A `KeyProtector`: what a host wraps keys with. -/
abbrev Protector := Nat

/-- `StoredCredential`; the nonce and the ciphertext are one value. -/
structure StoredCredential where
  username : Text
  domain : Option Text
  secret : Sealed Key Text

/-- A row of `credentials`. -/
structure CredentialRow where
  userId : Int
  serverId : Int
  stored : StoredCredential

/-- A row of `session_log`. -/
structure SessionEnd where
  userId : Int
  serverId : Int
  ended : Int

structure AuditLine where
  actor : Text
  action : Text
  detail : Text
  deriving DecidableEq

/-- A row of `audit`. -/
structure AuditRow where
  time : Int
  line : AuditLine
  deriving DecidableEq

structure Counts where
  users : Nat
  servers : Nat
  assignments : Nat
  credentials : Nat

/-- `ImportRow`: one row of a server import. -/
structure ImportRow where
  name : Text
  host : Text
  port : Option Nat
  group : Option (Option Text)
  domain : Option (Option Text)
  deriving DecidableEq

/-- `StoreError`; an error of the database itself is `sql`. -/
inductive StoreError
  | sql
  | notFound
  | conflict (message : Text)
  | invalid (message : Text)

/-! ## Settings -/

def maxSigninHours : Nat := 720

structure Settings where
  signinHours : Nat := 24
  renewBelowHours : Nat := 18
  maxFileMb : Nat := 0

namespace Settings

def check (s : Settings) : Except Text Unit :=
  if 1 ≤ s.signinHours ∧ s.signinHours ≤ maxSigninHours then
    if s.signinHours ≤ s.renewBelowHours then
      .error ("ask for the password again under fewer hours than a sign-in lasts (" ++
        number s.signinHours ++ ")")
    else .ok ()
  else .error ("a sign-in lasts 1 to " ++ number maxSigninHours ++ " hours")

def describe (s : Settings) : Text :=
  "sign-in " ++ number s.signinHours ++ " h, ask again under " ++
    number s.renewBelowHours ++ " h, files " ++
    (if s.maxFileMb = 0 then "any size".toList else "up to ".toList ++ number s.maxFileMb ++ " MB".toList)

def signinSecs (s : Settings) : Int := s.signinHours * 3600

def maxFileBytes (s : Settings) : Option Nat := if 0 < s.maxFileMb then some (s.maxFileMb * 1024 * 1024) else none

end Settings

/-! ## The tables -/

/-- The tables, and what `meta` holds: the settings, the two freeze flags, the instance, the master
key wrapped for this host and under the recovery passphrase, and the password of the directory's
service account. -/
structure Store where
  users : Table User.id := .empty
  groups : Table Group.id := .empty
  servers : Table Server.id := .empty
  assignments : List (Int × Int) := []
  credentials : List CredentialRow := []
  sessions : List SessionRow := []
  sessionLog : List SessionEnd := []
  auditLog : List AuditRow := []
  settings : Option Settings := none
  frozen : Bool := false
  freezePending : Bool := false
  instanceId : Option Text := none
  masterLocal : Option (Sealed Protector Key) := none
  masterRecovery : Option (Sealed Text Key) := none
  directoryPassword : Option (Sealed Key Text) := none

namespace Store

/-! ## Users -/

def userById (s : Store) (id : Int) : Option User := s.users.byId id

def userByName (s : Store) (username : Text) : Option User := s.users.rows.find? (·.username == username)

def oldest : List User → Option User
  | [] => none
  | u :: us => match oldest us with
    | none => some u
    | some v => if v.id < u.id then some v else some u

/-- `directory_user_by_sid`: the oldest row bound to the SID. -/
def directoryUserBySid (s : Store) (sid : Text) : Option User :=
  oldest (s.users.rows.filter fun u => u.sid == some sid && !u.isLocal)

def userRename (s : Store) (id incarnation : Int) (sid newName : Text) : Bool × Store :=
  let hit : User → Bool := fun u =>
    u.id == id && u.incarnation == incarnation && u.sid == some sid && !u.isLocal &&
      !s.users.rows.any (·.username == newName)
  (s.users.rows.countP hit == 1,
    { s with users := s.users.update hit (fun u => { u with username := newName }) fun _ => rfl })

/-- `user_create_returning`: `incarnation` is the trigger's `random()`. -/
def userCreateReturning (s : Store) (username : Text) (displayName : Option Text) (incarnation : Int) :
    Except StoreError User × Store :=
  if s.users.rows.any (·.username == username) then
    (.error (.conflict (username ++ " is already a user")), s)
  else
    let row : Int → User := fun id => { id, username, displayName, incarnation }
    (.ok (row (s.users.seq + 1)), { s with users := s.users.insert row (fun _ => rfl) })

def userCreate (s : Store) (username : Text) (displayName : Option Text) (incarnation : Int) :
    Except StoreError Int × Store :=
  let r := s.userCreateReturning username displayName incarnation
  (r.1.map User.id, r.2)

def userRecordLogin (s : Store) (id incarnation : Int) (sid : Text) (displayName : Option Text) (now : Int) :
    Bool × Store :=
  let hit : User → Bool := fun u =>
    u.id == id && u.incarnation == incarnation && (u.sid.isNone || u.sid == some sid)
  let signed : User → User := fun u =>
    { u with sid := u.sid.or (some sid), displayName := displayName.or u.displayName, lastLogin := some now }
  (decide (0 < s.users.rows.countP hit), { s with users := s.users.update hit signed fun _ => rfl })

/-- `local_account_set`: a local account is created, or the password of an existing one reset;
`incarnation` is the trigger's `random()`. -/
def localAccountSet (s : Store) (username hash sid : Text) (incarnation : Int) : Except StoreError Int × Store :=
  match s.userByName username with
  | some u =>
    if u.isLocal then
      (.ok u.id, { s with users := s.users.update (·.id == u.id) (fun u => { u with localHash := some hash }) fun _ =>
        rfl })
    else
      (.error (.conflict (username ++ " is a directory user; choose another name for the local account")), s)
  | none =>
    let row : Int → User := fun id =>
      { id, username, displayName := some (username ++ " (local)"), sid := some sid, localHash := some hash,
        incarnation }
    (.ok (s.users.seq + 1), { s with users := s.users.insert row (fun _ => rfl) })

theorem localAccountSet_rest (s : Store) (username hash sid : Text) (incarnation : Int) :
    ∃ users, (s.localAccountSet username hash sid incarnation).2 = { s with users } := by
  unfold localAccountSet
  split
  · split
    · exact ⟨_, rfl⟩
    · exact ⟨s.users, rfl⟩
  · exact ⟨_, rfl⟩

def localHash (s : Store) (id : Int) : Option Text := (s.userById id).bind User.localHash

def userFlagMismatch (s : Store) (id : Int) : Store :=
  { s with users := s.users.update (·.id == id) (fun u => { u with sidMismatch := true }) fun _ => rfl }

def userSetAdmin (s : Store) (id : Int) (admin : Bool) : Except StoreError Unit × Store :=
  if s.users.rows.any (·.id == id) then
    (.ok (), { s with users := s.users.update (·.id == id) (fun u => { u with isAdmin := admin }) fun _ => rfl })
  else (.error .notFound, s)

def userClearSid (s : Store) (id : Int) : Except StoreError Unit × Store :=
  if s.users.rows.any (·.id == id) then
    (.ok (), { s with
      users := s.users.update (·.id == id) (fun u => { u with sid := none, sidMismatch := false }) (fun _ => rfl)
      credentials := s.credentials.filter (·.userId != id)
      sessions := s.sessions.filter (·.userId != id) })
  else (.error .notFound, s)

/-- `user_delete`, with the rows that refer to the user. -/
def userDelete (s : Store) (id : Int) : Except StoreError Unit × Store :=
  if s.users.rows.any (·.id == id) then
    (.ok (), { s with
      users := s.users.delete (·.id == id)
      assignments := s.assignments.filter (·.1 != id)
      credentials := s.credentials.filter (·.userId != id)
      sessions := s.sessions.filter (·.userId != id)
      sessionLog := s.sessionLog.filter (·.userId != id) })
  else (.error .notFound, s)

def directoryUsersWithSessions (s : Store) (now : Int) : List User :=
  s.users.rows.filter fun u =>
    !u.isLocal && s.sessions.any fun r => r.userId == u.id && decide (now < r.expires)

/-! ## Groups and servers -/

/-- `COLLATE NOCASE` -/
def nocase (t : Text) : Text := t.map Char.toLower

/-- `group_insert`: at the end of the order. -/
def groupInsert (s : Store) (name : Text) : Except StoreError Int × Store :=
  if s.groups.rows.any fun g => nocase g.name == nocase name then
    (.error (.conflict ("a group named " ++ name ++ " exists")), s)
  else
    let sort := (s.groups.rows.map Group.sort).max?.getD (-1) + 1
    (.ok (s.groups.seq + 1), { s with groups := s.groups.insert (fun id => { id, name, sort }) fun _ => rfl })

def groupRename (s : Store) (id : Int) (name : Text) : Except StoreError Unit × Store :=
  if s.groups.rows.any fun g => nocase g.name == nocase name && g.id != id then
    (.error (.conflict ("a group named " ++ name ++ " exists")), s)
  else if s.groups.rows.any (·.id == id) then
    (.ok (), { s with groups := s.groups.update (·.id == id) (fun g => { g with name }) fun _ => rfl })
  else (.error .notFound, s)

/-- `group_order`: each id gets its place. -/
def groupOrder (s : Store) (ids : List Int) : Store :=
  { s with groups := ids.zipIdx.foldl (fun t p =>
      t.update (·.id == p.1) (fun g => { g with sort := p.2 }) fun _ => rfl) s.groups }

def groupDelete (s : Store) (id : Int) : Except StoreError Unit × Store :=
  let used := s.servers.rows.countP (·.groupId == some id)
  if 0 < used then
    (.error (.conflict ("the group still holds " ++ number used ++ " server(s)")), s)
  else if s.groups.rows.any (·.id == id) then (.ok (), { s with groups := s.groups.delete (·.id == id) })
  else (.error .notFound, s)

def serverById (s : Store) (id : Int) : Option Server := s.servers.byId id

/-- `name_free` and `group_exists` -/
def serverFits (s : Store) (name : Text) (except groupId : Option Int) : Except StoreError Unit :=
  if s.servers.rows.any fun v => nocase v.name == nocase name && except != some v.id then
    .error (.conflict ("a server named " ++ name ++ " exists"))
  else match groupId with
    | none => .ok ()
    | some id =>
      if s.groups.rows.any (·.id == id) then .ok ()
      else .error (.invalid ("no group with id " ++ number id))

/-- `server_create`: `incarnation` is the trigger's `random()`. -/
def serverCreate (s : Store) (name host : Text) (port : Nat) (groupId : Option Int) (domain : Option Text)
    (incarnation : Int) : Except StoreError Int × Store :=
  match s.serverFits name none groupId with
  | .error e => (.error e, s)
  | .ok () =>
    (.ok (s.servers.seq + 1), { s with
      servers := s.servers.insert (fun id => { id, name, host, port, groupId, domain, incarnation }) fun _ => rfl })

def serverUpdate (s : Store) (id : Int) (name host : Text) (port : Nat) (groupId : Option Int)
    (domain : Option Text) : Except StoreError Unit × Store :=
  match s.serverFits name (some id) groupId with
  | .error e => (.error e, s)
  | .ok () =>
    if s.servers.rows.any (·.id == id) then
      (.ok (), { s with
        servers := s.servers.update (·.id == id) (fun v => { v with name, host, port, groupId, domain }) fun _ => rfl })
    else (.error .notFound, s)

/-- `server_delete`, with the rows that refer to the server. -/
def serverDelete (s : Store) (id : Int) : Except StoreError Unit × Store :=
  if s.servers.rows.any (·.id == id) then
    (.ok (), { s with
      servers := s.servers.delete (·.id == id)
      assignments := s.assignments.filter (·.2 != id)
      credentials := s.credentials.filter (·.serverId != id)
      sessionLog := s.sessionLog.filter (·.serverId != id) })
  else (.error .notFound, s)

/-- The group a row of an import names, created if there is none. -/
def importGroup (s : Store) (row : ImportRow) : Option Int × Store :=
  match row.group.join with
  | none => (none, s)
  | some name =>
    match s.groups.rows.find? fun g => nocase g.name == nocase name with
    | some g => (some g.id, s)
    | none =>
      let r := s.groupInsert name
      (r.1.toOption, r.2)

/-- One row of `servers_import`: whether a server was created. -/
def importRow (s : Store) (row : ImportRow) (incarnation : Int) : Bool × Store :=
  let (groupId, s) := s.importGroup row
  match s.servers.rows.find? fun v => nocase v.name == nocase row.name with
  | some v =>
    (false, { s with
      servers := s.servers.update (·.id == v.id) (fun v => { v with
        host := row.host
        port := row.port.getD v.port
        groupId := if row.group.isSome then groupId else v.groupId
        domain := if row.domain.isSome then row.domain.join else v.domain }) fun _ => rfl })
  | none =>
    (true, { s with
      servers := s.servers.insert (fun id => {
        id, name := row.name, host := row.host, port := row.port.getD 3389, groupId, domain := row.domain.join,
        incarnation }) fun _ => rfl })

/-- `servers_import`: how many were created and how many updated. `incarnations` are the trigger's. -/
def serversImport (s : Store) (incarnations : Nat → Int) : List ImportRow → (Nat × Nat) × Store
  | [] => ((0, 0), s)
  | row :: rows =>
    let (created, s) := s.importRow row (incarnations rows.length)
    let (counts, s) := s.serversImport incarnations rows
    (if created then (counts.1 + 1, counts.2) else (counts.1, counts.2 + 1), s)

/-! ## Assignments -/

def isAssigned (s : Store) (userId serverId : Int) : Bool := s.assignments.contains (userId, serverId)

def assigned (s : Store) (userId : Int) : List Int := (s.assignments.filter (·.1 == userId)).map Prod.snd

def assignmentIds (s : Store) (userId : Int) : List Int := (s.assigned userId).insertionSort (· ≤ ·)

/-- `set_assignments`: how many were added and how many removed. Which missing server the error
names depends on the order of a hash set; here it is the first of the list. -/
def setAssignments (s : Store) (userId : Int) (ids : List Int) : Except StoreError (Nat × Nat) × Store :=
  if s.users.rows.any (·.id == userId) then
    let wanted := ids.dedup
    match wanted.find? fun id => !s.servers.rows.any (·.id == id) with
    | some id => (.error (.invalid ("no server with id " ++ number id)), s)
    | none =>
      let current := s.assigned userId
      let added := wanted.filter fun id => !current.contains id
      let removed := current.filter fun id => !wanted.contains id
      (.ok (added.length, removed.length), { s with
        assignments := (s.assignments ++ added.map fun id => (userId, id)).filter fun a =>
          !(a.1 == userId && removed.contains a.2)
        credentials := s.credentials.filter fun c => !(c.userId == userId && removed.contains c.serverId) })
  else (.error .notFound, s)

/-- `copy_assignments`: how many were new. -/
def copyAssignments (s : Store) (source target : Int) : Except StoreError Nat × Store :=
  let added := (s.assigned source).filter fun id => !s.assignments.contains (target, id)
  if added.isEmpty || s.users.rows.any (·.id == target) then
    (.ok added.length, { s with assignments := s.assignments ++ added.map fun id => (target, id) })
  else (.error .sql, s)

/-! ## Saved credentials and secrets -/

def credentialGet (s : Store) (userId serverId : Int) : Option StoredCredential :=
  (s.credentials.find? fun c => c.userId == userId && c.serverId == serverId).map CredentialRow.stored

/-- `credential_put`: in place of what was saved before. -/
def credentialPut (s : Store) (userId serverId : Int) (stored : StoredCredential) : Except StoreError Unit × Store :=
  if s.users.rows.any (·.id == userId) && s.servers.rows.any (·.id == serverId) then
    (.ok (), { s with
      credentials := (s.credentials.filter fun c => !(c.userId == userId && c.serverId == serverId)) ++
        [⟨userId, serverId, stored⟩] })
  else (.error .sql, s)

/-- `credential_delete`: whether there was one. -/
def credentialDelete (s : Store) (userId serverId : Int) : Bool × Store :=
  (s.credentials.any fun c => c.userId == userId && c.serverId == serverId, { s with
    credentials := s.credentials.filter fun c => !(c.userId == userId && c.serverId == serverId) })

/-- `replace_secrets`, as `reset` calls it: the saved credentials, the recovery wrap and the
directory's password go with the key they are under. -/
def replaceSecrets (s : Store) (wrapped : Sealed Protector Key) : Nat × Store :=
  (s.credentials.length, { s with
    credentials := [], masterRecovery := none, directoryPassword := none, masterLocal := some wrapped })

/-- `settings::read` -/
def readSettings (s : Store) : Settings := (s.settings.filter fun v => v.check.isOk).getD {}

/-! ## Sessions -/

/-- `session_create`: false when no row has the id and the incarnation; a second row of one token
hash is an error of the database. -/
def sessionCreate (s : Store) (tokenHash : Bytes) (userId incarnation expires now : Int) :
    Except StoreError Bool × Store :=
  if s.users.rows.any fun u => u.id == userId && u.incarnation == incarnation then
    if s.sessions.any (·.tokenHash == tokenHash) then (.error .sql, s)
    else (.ok true, { s with sessions := s.sessions ++ [⟨tokenHash, userId, now, expires⟩] })
  else (.ok false, s)

/-- `session_user`: the user behind an unexpired session. -/
def sessionUser (s : Store) (tokenHash : Bytes) (now : Int) : Option User :=
  (s.sessions.find? fun r => r.tokenHash == tokenHash && decide (now < r.expires)).bind fun r => s.userById r.userId

def sessionDelete (s : Store) (tokenHash : Bytes) : Store :=
  { s with sessions := s.sessions.filter (·.tokenHash != tokenHash) }

def sessionsDeleteUser (s : Store) (userId : Int) : Store :=
  { s with sessions := s.sessions.filter (·.userId != userId) }

def sessionsPurge (s : Store) (now : Int) : Store :=
  { s with sessions := s.sessions.filter fun r => decide (now < r.expires) }

/-- `incarnations`: of a user row and a server row. -/
def incarnations (s : Store) (userId serverId : Int) : Option (Int × Int) :=
  (s.userById userId).bind fun u => (s.serverById serverId).map fun v => (u.incarnation, v.incarnation)

/-- `session_ended`: one row per user and server, only against the rows the session was opened
with. -/
def sessionEnded (s : Store) (userId userIncarnation serverId serverIncarnation ended : Int) : Bool × Store :=
  if (s.users.rows.any fun u => u.id == userId && u.incarnation == userIncarnation) &&
      s.servers.rows.any fun v => v.id == serverId && v.incarnation == serverIncarnation then
    (true, { s with
      sessionLog := (s.sessionLog.filter fun r => !(r.userId == userId && r.serverId == serverId)) ++
        [⟨userId, serverId, ended⟩] })
  else (false, s)

def audit (s : Store) (line : AuditLine) (now : Int) : Store := { s with auditLog := s.auditLog ++ [⟨now, line⟩] }

def counts (s : Store) : Counts :=
  ⟨s.users.rows.length, s.servers.rows.length, s.assignments.length, s.credentials.length⟩

end Store

/-! ## Edits -/

/-- The functions of the store an administrator's edit ends in. -/
inductive Edit
  | userSetAdmin (id : Int) (admin : Bool)
  | copyAssignments (source target : Int)
  | settingsWrite (settings : Settings)
  | serverCreate (name host : Text) (port : Nat) (groupId : Option Int) (domain : Option Text)
  | serverUpdate (id : Int) (name host : Text) (port : Nat) (groupId : Option Int) (domain : Option Text)
  | serversImport (rows : List ImportRow)
  | groupCreate (name : Text)
  | groupRename (id : Int) (name : Text)
  | groupOrder (ids : List Int)
  | groupDelete (id : Int)

inductive Edited
  | unit
  | id (n : Int)
  | count (n : Nat)
  | counts (created updated : Nat)

namespace Store

def result {β : Type} (f : β → Edited) (r : Except StoreError β × Store) : Except StoreError Edited × Store :=
  (r.1.map f, r.2)

/-- An edit; `incarnations` are those of the rows it inserts. -/
def edit (s : Store) (incarnations : Nat → Int) : Edit → Except StoreError Edited × Store
  | .userSetAdmin id admin => result (fun _ => .unit) (s.userSetAdmin id admin)
  | .copyAssignments source target => result .count (s.copyAssignments source target)
  | .settingsWrite settings => (.ok .unit, { s with settings := some settings })
  | .serverCreate name host port groupId domain =>
    result .id (s.serverCreate name host port groupId domain (incarnations 0))
  | .serverUpdate id name host port groupId domain =>
    result (fun _ => .unit) (s.serverUpdate id name host port groupId domain)
  | .serversImport rows =>
    let r := s.serversImport incarnations rows
    (.ok (.counts r.1.1 r.1.2), r.2)
  | .groupCreate name => result .id (s.groupInsert name)
  | .groupRename id name => result (fun _ => .unit) (s.groupRename id name)
  | .groupOrder ids => (.ok .unit, s.groupOrder ids)
  | .groupDelete id => result (fun _ => .unit) (s.groupDelete id)

/-! ## What an answer says of the tables -/

variable {s : Store} {id : Int}

variable {u : User}

theorem userById_eq_some (h : s.userById id = some u) : u ∈ s.users.rows ∧ u.id = id := Table.byId_eq_some h

theorem serverById_eq_some {v : Server} (h : s.serverById id = some v) :
    v ∈ s.servers.rows ∧ v.id = id := Table.byId_eq_some h

theorem sessionUser_eq_some {tokenHash : Bytes} {now : Int} (h : s.sessionUser tokenHash now = some u) :
    ∃ r ∈ s.sessions, r.tokenHash = tokenHash ∧ r.userId = u.id := by
  obtain ⟨r, hr, hu⟩ := Option.bind_eq_some_iff.1 h
  refine ⟨r, List.mem_of_find?_eq_some hr, ?_, (userById_eq_some hu).2.symm⟩
  have hp := List.find?_some hr
  simp only [Bool.and_eq_true, beq_iff_eq] at hp
  exact hp.1

theorem mem_assigned {userId : Int} : id ∈ s.assigned userId ↔ (userId, id) ∈ s.assignments := by
  simp [assigned]

end Store

end WebAccess
