/-
The requests of the proxy that admit connections and take access away, as programs over its calls:
`web.rs`, `admin.rs`, `policy.rs`, `proxy.rs` and `server.rs` (`revocation_pass`). Each follows its
source function call by call. A route that does not take the gate itself runs under one shared hold
of it (`gate_requests`); the others show their holds. What a request finds outside the proxy (the
directory's answers, whether a password matches, a random token) is a parameter of its program.
Lines of the activity log about sign-ins and checks of the directory are left out.
-/
import WebAccess.Serve.Vault

namespace WebAccess

open Codec Wire Process

/-! ## Errors -/

structure ApiError where
  status : Nat
  message : Text

namespace ApiError

def badRequest (message : Text) : ApiError := ⟨400, message⟩

def conflict (message : Text) : ApiError := ⟨409, message⟩

def notFound : ApiError := ⟨404, "not found"⟩

def internal : ApiError := ⟨500, "the proxy could not complete that request"⟩

/-- `From<StoreError>` -/
def ofStore : StoreError → ApiError
  | .notFound => notFound
  | .conflict message => conflict message
  | .invalid message => badRequest message
  | .sql => internal

/-- `From<VaultError>` -/
def ofVault : VaultError → ApiError
  | .locked =>
    conflict "the credential store is locked; an administrator must unlock it with the recovery passphrase"
  | .noRecovery => conflict "no recovery passphrase has been set"
  | .wrongPassphrase => badRequest "the passphrase is not correct"
  | .weak => badRequest "the passphrase must be at least 12 characters"
  | .crypto => internal

/-- `session_of`: no session behind the cookie. -/
def signIn : ApiError := ⟨401, "sign in"⟩

/-- `admin_only` -/
def adminsOnly : ApiError := ⟨403, "administrators only"⟩

/-- `same_generation` -/
def replacedMeanwhile : ApiError :=
  ⟨409, "this proxy's data was replaced while that request ran; try it again"⟩

/-- `still_wanted` -/
def gone : ApiError := ⟨408, "the request ended before it could start"⟩

def refused : ApiError :=
  ⟨401, "the username or password is not correct, or the account cannot sign in"⟩

/-- `not_frozen` -/
def frozen : ApiError :=
  ⟨409, "this proxy is frozen for migration; unfreeze it on the Migration page to make changes"⟩

/-- `sid_mismatch` -/
def mismatch : ApiError :=
  ⟨403, "this account does not match the one registered here; an administrator must confirm it"⟩

/-- An import came between the check and the write. -/
def replaced : ApiError :=
  ⟨503, "the proxy's data was replaced while you signed in; sign in again"⟩

end ApiError

abbrev ApiResult (α : Type) : Type := Except ApiError α

/-! ## Which server -/

inductive Denied
  | noSuchTarget
  | notPermitted

def resolve (userId : Int) (targetId : Text) : Prog Api (Except Denied Server) :=
  match parseI64 targetId with
  | none => pure (.error .noSuchTarget)
  | some id => do
    match ← ask (.serverById id) with
    | none => pure (.error .noSuchTarget)
    | some server =>
      if ← ask (.isAssigned userId server.id) then pure (.ok server) else pure (.error .notPermitted)

/-! ## Admission -/

inductive Refusal
  | ticketUnknown
  | ticketOtherUser
  | signInEnded
  | noSuchServer
  | notAssigned
  | wrongServer
  | superseded

/-- The last part of `admit`: the rows are told apart from later rows of their ids. -/
def recordRows (liveId : Nat) (user : User) (target : Server) : Prog Api (Except Refusal Server) := do
  match ← ask (.incarnations user.id target.id) with
  | none => pure (.error .noSuchServer)
  | some rows => do
    ask (.setIncarnations liveId rows)
    pure (.ok target)

/-- The middle part of `admit`: the ticket names the server, the sign-in is still live, and the
server is assigned. -/
def checkTicket (liveId : Nat) (user : User) (tokenHash : Bytes) (targetId : Text) (ticket : Ticket) :
    Prog Api (Except Refusal Server) := do
  ask (.setServer liveId ticket.serverId)
  match ← ask (.sessionUser tokenHash) with
  | none => pure (.error .signInEnded)
  | some u =>
    if u.id == user.id then do
      match ← resolve user.id targetId with
      | .error .noSuchTarget => pure (.error .noSuchServer)
      | .error .notPermitted => pure (.error .notAssigned)
      | .ok target =>
        if target.id == ticket.serverId then recordRows liveId user target else pure (.error .wrongServer)
    else pure (.error .signInEnded)

/-- `Session::admit` -/
def admitSession (liveId : Nat) (user : User) (tokenHash : Bytes) (targetId proxyAuth : Text) :
    Prog Api (Except Refusal Server) := holding .shared do
  let opened ← ask (.generationOf liveId)
  let generation ← ask .generation
  if opened == some generation then do
    match ← ask (.redeem proxyAuth) with
    | none => pure (.error .ticketUnknown)
    | some ticket =>
      if ticket.userId == user.id then checkTicket liveId user tokenHash targetId ticket
      else pure (.error .ticketOtherUser)
  else pure (.error .superseded)

/-! ## Who is asking -/

def sessionOf (tokenHash : Bytes) : Prog Api (ApiResult User) := do
  match ← ask (.sessionUser tokenHash) with
  | none => pure (.error .signIn)
  | some user => pure (.ok user)

/-- `CurrentUser`, and what a handler does for it. -/
def withCurrentUser {α : Type} (tokenHash : Bytes) (handler : User → Prog Api (ApiResult α)) :
    Prog Api (ApiResult α) := do
  match ← sessionOf tokenHash with
  | .error e => pure (.error e)
  | .ok user => handler user

/-- `AdminUser` and `revalidate_admin`, and what a handler does for it. -/
def withAdmin {α : Type} (tokenHash : Bytes) (handler : User → Prog Api (ApiResult α)) : Prog Api (ApiResult α) := do
  match ← sessionOf tokenHash with
  | .error e => pure (.error e)
  | .ok user => do
    if ← ask (.isAdmin user) then handler user else pure (.error .adminsOnly)

/-- `AdminToken`: others are turned away before the body is read, without a hold. The handler checks
again under its own. -/
def withAdminToken {α : Type} (tokenHash : Bytes) (handler : Prog Api (ApiResult α)) : Prog Api (ApiResult α) := do
  if ← ask (.adminToken tokenHash) then handler else pure (.error .adminsOnly)

/-! ## Connections -/

/-- `ws_upgrade`: the connection is registered before anything is read from the socket. -/
def wsUpgrade (tokenHash : Bytes) : Prog Api (ApiResult Unit) :=
  withCurrentUser tokenHash fun user => do
    let _ ← ask (.register user tokenHash)
    pure (.ok ())

/-- What `connect` answers with. -/
structure Connected where
  ticket : Text
  server : Int
  credential : Option (Text × Option Text × Text)

def openSaved (user : User) (server : Server) : Prog Api (Option (Text × Option Text × Text)) := do
  match ← ask (.credentialGet user.id server.id), user.sid with
  | some stored, some sid =>
    match ← ask .vaultKey with
    | none => pure none
    | some _ => do
      match ← ask .vaultKey with
      | none => pure none
      | some key =>
        pure ((stored.secret.openWith key (Vault.credentialAad sid server.id)).map fun password =>
          (stored.username, stored.domain, password))
  | _, _ => pure none

/-- `connect`. The client is not told why it was denied. -/
def connect (tokenHash : Bytes) (serverId : Int) : Prog Api (ApiResult Connected) :=
  withCurrentUser tokenHash fun user => do
    match ← resolve user.id (number serverId) with
    | .error _ => pure (.error .notFound)
    | .ok server => do
      let ticket ← ask (.issue ⟨user.id, server.id⟩)
      let credential ← openSaved user server
      pure (.ok ⟨ticket, server.id, credential⟩)

/-- `Session::record_open`: whether the opening was recorded. -/
def recordOpen (liveId : Nat) (user : User) (target : Server) (addr : Text) : Prog Api Bool := holding .shared do
  let opened ← ask (.generationOf liveId)
  let generation ← ask .generation
  if opened == some generation then do
    ask (.audit ⟨user.username, "session.open",
      target.name ++ " (" ++ target.host ++ " -> " ++ addr ++ ")"⟩)
    pure true
  else pure false

def recordEnd (e : Ended) : Prog Api Unit :=
  match e.established, e.serverId, e.incarnations with
  | true, some serverId, some (userRow, serverRow) => holding .shared do
    let generation ← ask .generation
    if e.generation == generation then do
      let _ ← ask (.sessionEnded e.userId userRow serverId serverRow)
      pure ()
    else pure ()
  | _, _, _ => pure ()

/-! ## Taking access away -/

/-- A line for the activity log, after which a handler is done. -/
def audited (actor : Text) (action detail : Text) : Prog Api (ApiResult Unit) := do
  ask (.audit ⟨actor, action, detail⟩)
  pure (.ok ())

def logout (tokenHash : Bytes) : Prog Api (ApiResult Unit) :=
  withCurrentUser tokenHash fun user => do
    ask (.sessionDelete tokenHash)
    let _ ← endSession tokenHash
    audited user.username "signout" []

def notFrozen {α : Type} (change : Prog Api (ApiResult α)) : Prog Api (ApiResult α) := do
  if ← ask .frozen then pure (.error .frozen) else change

/-- An administrator's change: not while frozen. -/
def withEditor {α : Type} (tokenHash : Bytes) (change : User → Prog Api (ApiResult α)) :
    Prog Api (ApiResult α) := withAdmin tokenHash fun admin => notFrozen (change admin)

/-- An administrator's change of a user there is (`user_or_404`). -/
def changeUser (tokenHash : Bytes) (id : Int) (change : User → User → Prog Api (ApiResult Unit)) :
    Prog Api (ApiResult Unit) :=
  withEditor tokenHash fun admin => do
    match ← ask (.userById id) with
    | none => pure (.error .notFound)
    | some user => change admin user

def removeUser (tokenHash : Bytes) (id : Int) : Prog Api (ApiResult Unit) :=
  changeUser tokenHash id fun admin user => do
    match ← ask (.userDelete id) with
    | .error e => pure (.error (.ofStore e))
    | .ok () => do
      let _ ← endUser id
      audited admin.username "user.remove" user.username

def clearSid (tokenHash : Bytes) (id : Int) : Prog Api (ApiResult Unit) :=
  changeUser tokenHash id fun admin user => do
    match ← ask (.userClearSid id) with
    | .error e => pure (.error (.ofStore e))
    | .ok () => do
      let _ ← endUser id
      audited admin.username "user.sid.reset" user.username

/-- The loop of `set_user_servers` over the servers that are gone. -/
def endGone (userId : Int) : List Int → Prog Api Unit
  | [] => pure ()
  | gone :: rest => do
    let _ ← endUserServer userId gone
    endGone userId rest

/-- The line of `set_user_servers`, if anything changed. -/
def auditServers (admin user : User) (added removed : Nat) : Prog Api (ApiResult Unit) :=
  if added + removed > 0 then
    audited admin.username "user.servers"
      (user.username ++ ": +" ++ number added ++ " -" ++ number removed)
  else pure (.ok ())

def setUserServers (tokenHash : Bytes) (id : Int) (serverIds : List Int) : Prog Api (ApiResult Unit) :=
  changeUser tokenHash id fun admin user => do
    let before ← ask (.assignmentIds id)
    match ← ask (.setAssignments id serverIds) with
    | .error e => pure (.error (.ofStore e))
    | .ok (added, removed) => do
      endGone id (before.filter fun s => !serverIds.contains s)
      auditServers admin user added removed

def removeServer (tokenHash : Bytes) (id : Int) : Prog Api (ApiResult Unit) :=
  withEditor tokenHash fun admin => do
    match ← ask (.serverById id) with
    | none => pure (.error .notFound)
    | some server => do
      match ← ask (.serverDelete id) with
      | .error e => pure (.error (.ofStore e))
      | .ok () => do
        let _ ← endServer id
        audited admin.username "server.remove" server.name

/-! ## What the directory takes away -/

/-- `Account`: what the directory has on an account. -/
structure Account where
  username : Text
  displayName : Option Text := none
  sid : Text
  disabled : Bool := false
  expired : Bool := false
  deriving DecidableEq

/-- One answer of `lookup_each`: the name asked for, and what was found, if the lookup worked. -/
abbrev Lookup := Text × Except Unit (Option Account)

/-- The directory's answers to the names and SIDs it is asked for, unless it cannot be reached. -/
abbrev LookupEach := List (Text × Option Text) → Option (List Lookup)

/-- What is asked for each user: by SID where the row has one. -/
def lookupName (u : User) : Text × Option Text := (u.username, u.sid.filter fun sid => "S-".toList.isPrefixOf sid)

/-- The users with a connection that are not among those with a session, in `users_to_check`. -/
def connectedUsers (seen : List Int) : List Int → Prog Api (List User)
  | [] => pure []
  | id :: ids => do
    if seen.contains id then connectedUsers seen ids
    else do
      let found ← ask (.userById id)
      let rest ← connectedUsers seen ids
      pure ((found.filter (!·.isLocal)).toList ++ rest)

def usersToCheck : Prog Api (List User) := do
  let users ← ask .directoryUsersWithSessions
  let ids ← ask .userIds
  let connected ← connectedUsers (users.map User.id) ids
  pure (users ++ connected)

/-- `revocation_reason`, as whether there is one. -/
def revocationReason (user : User) : Option Account → Bool
  | none => true
  | some a => a.disabled || a.expired || user.sid.any (· != a.sid)

structure Pass where
  checked : Nat := 0
  revoked : Nat := 0
  unread : List Text := []

/-- The loop of `apply_lookups`: each user is revoked as they are by then. -/
def applyLookups (pass : Pass) : List (User × Lookup) → Prog Api Pass
  | [] => pure pass
  | (_, name, .error ()) :: rest => applyLookups { pass with unread := pass.unread ++ [name] } rest
  | (checked, _, .ok account) :: rest => do
    let found ← ask (.userById checked.id)
    match found.filter fun u => !u.isLocal && u.username == checked.username with
    | none => applyLookups { pass with checked := pass.checked + 1 } rest
    | some user =>
      if revocationReason user account then do
        ask (.sessionsDeleteUser user.id)
        let _ ← endUser user.id
        applyLookups { pass with checked := pass.checked + 1, revoked := pass.revoked + 1 } rest
      else applyLookups { pass with checked := pass.checked + 1 } rest

/-- Who to check, read in the first hold of `revocation_pass`: with the password of the service
account, if it is set and can be read. -/
def passReads : Prog Api (ApiResult (Option (Nat × List User))) := do
  match ← Vault.directoryPassword .service with
  | .error _ => pure (.error .internal)
  | .ok none => pure (.ok none)
  | .ok (some _) => do
    let generation ← ask .generation
    let users ← usersToCheck
    pure (.ok (some (generation, users)))

/-- `apply_lookups`: only in the database the directory was asked about. -/
def passWrites (generation : Nat) (found : List (User × Lookup)) : Prog Api (ApiResult Unit) := do
  let current ← ask .generation
  if current == generation then do
    let _ ← applyLookups {} found
    pure (.ok ())
  else pure (.ok ())

/-- `revocation_pass`, with the directory's answer to `lookup_each`; none when it could not be
asked. -/
def revocationPass (lookupEach : LookupEach) : Prog Api (ApiResult Unit) := do
  match ← holding .shared passReads with
  | .error e => pure (.error e)
  | .ok none => pure (.ok ())
  | .ok (some (generation, users)) =>
    if users.isEmpty then pure (.ok ())
    else
      match lookupEach (users.map lookupName) with
      | none => pure (.error .internal)
      | some found => holding .shared (passWrites generation (users.zip found))

/-! ## Work that leaves the gate -/

/-- What an administrator's request that consults the directory reads in its first hold. -/
def adminReads {α : Type} (tokenHash : Bytes) (read : Prog Api α) : Prog Api (ApiResult (α × Nat)) :=
  withEditor tokenHash fun _ => do
    let found ← read
    let generation ← ask .generation
    pure (.ok (found, generation))

/-- What it writes in its second (`same_generation`). -/
def adminWrites (tokenHash : Bytes) (generation : Nat) (write : User → Prog Api (ApiResult Unit)) :
    Prog Api (ApiResult Unit) := do
  let current ← ask .generation
  if current == generation then withEditor tokenHash write else pure (.error .replacedMeanwhile)

/-- The password `add_user` asks the directory with, if it can be read. -/
def lookupPassword : Prog Api (Option Text) := do
  match ← Vault.directoryPassword .service with
  | .error _ => pure none
  | .ok password => pure password

/-- What `add_user` takes over from the directory: nothing if it could not be asked. -/
def newUserName (username : Text) (lookup : Except Unit (Option Account)) : ApiResult (Option Text) :=
  match lookup with
  | .error () => .ok none
  | .ok none => .error ⟨404, "the directory has no account named " ++ username⟩
  | .ok (some account) => .ok account.displayName

/-- `add_user`, given what the directory says of the name; it is asked if there is a password to
ask it with. -/
def addUser (tokenHash : Bytes) (username : Text) (lookup : Except Unit (Option Account)) :
    Prog Api (ApiResult Unit) := withAdminToken tokenHash do
  match ← holding .shared (adminReads tokenHash lookupPassword) with
  | .error e => pure (.error e)
  | .ok (password, generation) =>
    match newUserName username (if password.isSome then lookup else .error ()) with
    | .error e => pure (.error e)
    | .ok displayName => holding .shared (adminWrites tokenHash generation fun admin => do
        match ← ask (.userCreate username displayName) with
        | .error e => pure (.error (.ofStore e))
        | .ok _ => audited admin.username "user.add" username)

/-- `set_directory_password`, given what the directory says to the password: an error turns it
away. -/
def setDirectoryPassword (tokenHash : Bytes) (password : Text) (probe : ApiResult Unit) :
    Prog Api (ApiResult Unit) := withAdminToken tokenHash do
  if password.isEmpty then pure (.error (.badRequest "enter the service account's password"))
  else do
    match ← holding .shared (adminReads tokenHash (pure ())) with
    | .error e => pure (.error e)
    | .ok (_, generation) =>
      match probe with
      | .error e => pure (.error e)
      | .ok () => holding .shared (adminWrites tokenHash generation fun admin => do
          match ← Vault.setDirectoryPassword .service password with
          | .error e => pure (.error (.ofVault e))
          | .ok () => audited admin.username "directory.password" [])

/-! ## What the file scan tells -/

def myNotices (tokenHash : Bytes) (after : Nat) : Prog Api (ApiResult Unit) :=
  withCurrentUser tokenHash fun user => do
    let _ ← ask (.noticesSince user.id after)
    pure (.ok ())

end WebAccess
