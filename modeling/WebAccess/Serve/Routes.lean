/-
The routes of the service (`web.rs`, `admin.rs`), by method and path, and the middleware every
request goes through (`gate_requests`): the routes that take the gate themselves run as they are;
every other one runs under one shared hold of the gate, and a change has to carry the instance of
the database it is made in. Each response is stamped with the instance.
-/
import WebAccess.Serve.Migrate
import WebAccess.Serve.SignIn

namespace WebAccess

open Codec Wire Process

inductive Method
  | get
  | head
  | options
  | post
  | put
  | patch
  | delete
  deriving DecidableEq

/-- The routes, with what comes with a request. A page only reads; what it shows is left out, and
which calls it makes, that change nothing, comes with it. -/
inductive Route
  | page (isHead : Bool) (path : Text) (reads : List Call)
  | wsUpgrade (tokenHash : Bytes)
  | myNotices (tokenHash : Bytes) (after : Nat)
  | connect (tokenHash : Bytes) (serverId : Int)
  | saveCredential (tokenHash : Bytes) (serverId : Int) (form : SaveForm)
  | forgetCredential (tokenHash : Bytes) (serverId : Int)
  | logout (tokenHash : Bytes)
  | updateUser (tokenHash : Bytes) (id : Int) (isAdmin : Bool)
  | removeUser (tokenHash : Bytes) (id : Int)
  | setUserServers (tokenHash : Bytes) (id : Int) (serverIds : List Int)
  | copyFrom (tokenHash : Bytes) (id source : Int)
  | clearSid (tokenHash : Bytes) (id : Int)
  | addServer (tokenHash : Bytes) (fields : ApiResult ServerFields) (groupId : Option Int)
  | importServers (tokenHash : Bytes) (rows : ApiResult (List ImportRow))
  | updateServer (tokenHash : Bytes) (id : Int) (fields : ApiResult ServerFields) (groupId : Option Int)
  | removeServer (tokenHash : Bytes) (id : Int)
  | addGroup (tokenHash : Bytes) (name : ApiResult Text)
  | orderGroups (tokenHash : Bytes) (ids : List Int)
  | renameGroup (tokenHash : Bytes) (id : Int) (name : ApiResult Text)
  | removeGroup (tokenHash : Bytes) (id : Int)
  | putSettings (tokenHash : Bytes) (settings : Settings)
  | setRecovery (tokenHash : Bytes) (current : Option Text) (new : Text)
  | unlock (tokenHash : Bytes) (passphrase : Text)
  | resetCredentialStore (tokenHash : Bytes) (confirmHost : Text)
  | unfreeze (tokenHash : Bytes)
  | cancelImport (tokenHash : Bytes) (upload : Text)
  | login (username : Text) (verify : Text → Bool) (account : Option Account) (tokenHash : Bytes) (random : Text)
  | ssoSignIn (account : Account) (tokenHash : Bytes)
  | addUser (tokenHash : Bytes) (username : Text) (lookup : Except Unit (Option Account))
  | setDirectoryPassword (tokenHash : Bytes) (password : Text) (probe : ApiResult Unit)
  | exportDatabase (tokenHash : Bytes) (passphrase : Text) (freeze : Bool) (fileName : Text) (fate : Fate)
  | uploadImport (tokenHash : Bytes) (upload : ApiResult Text)
  | confirmImport (tokenHash : Bytes) (name : Text) (wanted : Bool) (upload : Option Archive) (passphrase : Text)
      (confirmHost : Option Text) (installed : Except Text Unit)

/-- What a handler answers with, where it is looked at. -/
inductive Reply
  | done
  | connected (c : Connected)
  | archive (a : Archive)

namespace Route

def method : Route → Method
  | page isHead _ _ => if isHead then .head else .get
  | wsUpgrade _ | myNotices .. => .get
  | saveCredential .. | setUserServers .. | putSettings .. => .put
  | updateUser .. | updateServer .. | renameGroup .. => .patch
  | forgetCredential .. | removeUser .. | removeServer .. | removeGroup .. | cancelImport .. => .delete
  | _ => .post

def path : Route → Text
  | page _ path _ => path
  | wsUpgrade _ => "/ws"
  | myNotices .. => "/api/me/notices"
  | connect .. => "/api/connect"
  | saveCredential _ serverId _ | forgetCredential _ serverId => "/api/credentials/" ++ number serverId
  | logout _ => "/api/logout"
  | updateUser _ id _ | removeUser _ id => "/api/admin/users/" ++ number id
  | setUserServers _ id _ => "/api/admin/users/" ++ number id ++ "/servers"
  | copyFrom _ id source => "/api/admin/users/" ++ number id ++ "/copy-from/" ++ number source
  | clearSid _ id => "/api/admin/users/" ++ number id ++ "/clear-sid"
  | addServer .. => "/api/admin/servers"
  | importServers .. => "/api/admin/servers/import"
  | updateServer _ id _ _ | removeServer _ id => "/api/admin/servers/" ++ number id
  | addGroup .. => "/api/admin/groups"
  | orderGroups .. => "/api/admin/groups/order"
  | renameGroup _ id _ | removeGroup _ id => "/api/admin/groups/" ++ number id
  | putSettings .. => "/api/admin/settings"
  | setRecovery .. => "/api/admin/migration/recovery"
  | unlock .. => "/api/admin/migration/unlock"
  | resetCredentialStore .. => "/api/admin/migration/reset"
  | unfreeze _ => "/api/admin/migration/unfreeze"
  | cancelImport _ upload => "/api/admin/migration/import/" ++ upload
  | login .. => "/api/login"
  | ssoSignIn .. => "/api/saml/acs"
  | addUser .. => "/api/admin/users"
  | setDirectoryPassword .. => "/api/admin/settings/directory-password"
  | exportDatabase .. => "/api/admin/migration/export"
  | uploadImport .. => "/api/admin/migration/import"
  | confirmImport _ name .. => "/api/admin/migration/import/" ++ name

def readAll : List Call → Prog Api Unit
  | [] => pure ()
  | c :: cs => if c.tag = .look then do
      let _ ← ask c
      readAll cs
    else readAll cs

/-- A handler that answers with nothing that is looked at. -/
def plain (p : Prog Api (ApiResult Unit)) : Prog Api (ApiResult Reply) := do
  let r ← p
  pure (r.map fun _ => .done)

def handler : Route → Prog Api (ApiResult Reply)
  | page _ _ reads => do
    readAll reads
    pure (.ok .done)
  | wsUpgrade tokenHash => plain (WebAccess.wsUpgrade tokenHash)
  | myNotices tokenHash after => plain (WebAccess.myNotices tokenHash after)
  | connect tokenHash serverId => do
    let r ← WebAccess.connect tokenHash serverId
    pure (r.map .connected)
  | saveCredential tokenHash serverId form => plain (WebAccess.saveCredential tokenHash serverId form)
  | forgetCredential tokenHash serverId => plain (WebAccess.forgetCredential tokenHash serverId)
  | logout tokenHash => plain (WebAccess.logout tokenHash)
  | updateUser tokenHash id isAdmin => plain (WebAccess.updateUser tokenHash id isAdmin)
  | removeUser tokenHash id => plain (WebAccess.removeUser tokenHash id)
  | setUserServers tokenHash id serverIds => plain (WebAccess.setUserServers tokenHash id serverIds)
  | copyFrom tokenHash id source => plain (WebAccess.copyFrom tokenHash id source)
  | clearSid tokenHash id => plain (WebAccess.clearSid tokenHash id)
  | addServer tokenHash fields groupId => plain (WebAccess.addServer tokenHash fields groupId)
  | importServers tokenHash rows => plain (WebAccess.importServers tokenHash rows)
  | updateServer tokenHash id fields groupId => plain (WebAccess.updateServer tokenHash id fields groupId)
  | removeServer tokenHash id => plain (WebAccess.removeServer tokenHash id)
  | addGroup tokenHash name => plain (WebAccess.addGroup tokenHash name)
  | orderGroups tokenHash ids => plain (WebAccess.orderGroups tokenHash ids)
  | renameGroup tokenHash id name => plain (WebAccess.renameGroup tokenHash id name)
  | removeGroup tokenHash id => plain (WebAccess.removeGroup tokenHash id)
  | putSettings tokenHash settings => plain (WebAccess.putSettings tokenHash settings)
  | setRecovery tokenHash current new => plain (WebAccess.setRecovery tokenHash current new)
  | unlock tokenHash passphrase => plain (WebAccess.unlock tokenHash passphrase)
  | resetCredentialStore tokenHash confirmHost => plain (WebAccess.resetCredentialStore tokenHash confirmHost)
  | unfreeze tokenHash => plain (WebAccess.unfreeze tokenHash)
  | cancelImport tokenHash _ => plain (WebAccess.cancelImport tokenHash)
  | login username verify account tokenHash random => plain (WebAccess.login username verify account tokenHash random)
  | ssoSignIn account tokenHash => plain (WebAccess.ssoSignIn account tokenHash)
  | addUser tokenHash username lookup => plain (WebAccess.addUser tokenHash username lookup)
  | setDirectoryPassword tokenHash password probe => plain (WebAccess.setDirectoryPassword tokenHash password probe)
  | exportDatabase tokenHash passphrase freeze fileName fate => do
    let r ← WebAccess.exportDatabase tokenHash passphrase freeze fileName fate
    pure (r.map .archive)
  | uploadImport tokenHash upload => plain (WebAccess.uploadImport tokenHash upload)
  | confirmImport tokenHash _ wanted upload passphrase confirmHost installed =>
    plain (WebAccess.importExclusive tokenHash wanted upload passphrase confirmHost installed)

end Route

/-! ## The middleware -/

def selfGatedRoutes : List (Method × Text) :=
  [(.post, "/api/login"), (.post, "/api/saml/acs"), (.post, "/api/admin/users"),
    (.post, "/api/admin/settings/directory-password"), (.post, "/api/admin/migration/export"),
    (.post, "/api/admin/migration/import"), (.post, "/api/admin/migration/import/")]

/-- `route_in`: a trailing `/` matches what starts so. -/
def routeIn (routes : List (Method × Text)) (method : Method) (path : Text) : Bool :=
  routes.any fun (m, p) =>
    m == method && if "/".toList.isSuffixOf p then p.isPrefixOf path else path == p

def needsInstance (method : Method) (path : Text) : Bool :=
  !(method matches .get | .head | .options) && "/api/".toList.isPrefixOf path && path != "/api/logout".toList &&
    !"/api/admin/migration/".toList.isPrefixOf path

/-- The answer to a change from a page of another database. -/
def ApiError.changed : ApiError :=
  conflict "this proxy's data changed after the page was loaded; reload the page"

/-- `stamp_instance` -/
def stamped {α : Type} (p : Prog Api α) : Prog Api α := do
  let r ← p
  let _ ← ask .instanceId
  pure r

/-- The instance a change carries is compared with the database's; one that cannot be read is
empty, which no page carries. -/
def checkInstance {α : Type} (method : Method) (path : Text) (sent : Option Text)
    (p : Prog Api (ApiResult α)) : Prog Api (ApiResult α) :=
  if needsInstance method path then do
    let current := (← ask .instanceId).getD []
    if current.isEmpty || sent != some current then pure (.error .changed) else p
  else p

/-- `gate_requests`; `sent` is the instance the request carries. -/
def gateRequests {α : Type} (method : Method) (path : Text) (sent : Option Text) (p : Prog Api (ApiResult α)) :
    Prog Api (ApiResult α) :=
  if routeIn selfGatedRoutes method path then stamped p
  else holding .shared (stamped (checkInstance method path sent p))

def Route.program (r : Route) (sent : Option Text) : Prog Api (ApiResult Reply) :=
  gateRequests r.method r.path sent r.handler

end WebAccess
