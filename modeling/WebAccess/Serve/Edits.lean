/-
The other edits of the management plane (`admin.rs`), and the credentials a user saves (`web.rs`).
Each is one family: an administrator who is not kept out by a freeze, what is checked first, one
function of the store, a line for the activity log. What was made of a form before the database is
asked (`server_fields`, `valid_name`, `parse_import`) comes with the request.
-/
import WebAccess.Serve.Handlers

namespace WebAccess

open Codec Wire Process

/-! ## Edits -/

/-- One function of the store, and the line that tells of it. -/
def editing (admin : User) (e : Edit) (line : Edited → Text × Text) : Prog Api (ApiResult Unit) := do
  match ← ask (.edit e) with
  | .error e => pure (.error (.ofStore e))
  | .ok edited => audited admin.username (line edited).1 (line edited).2

/-- An edit that comes with what was made of its form. -/
def withForm {α : Type} (tokenHash : Bytes) (form : ApiResult α)
    (change : User → α → Prog Api (ApiResult Unit)) : Prog Api (ApiResult Unit) :=
  withEditor tokenHash fun admin =>
    match form with
    | .error e => pure (.error e)
    | .ok a => change admin a

def updateUser (tokenHash : Bytes) (id : Int) (isAdmin : Bool) : Prog Api (ApiResult Unit) :=
  changeUser tokenHash id fun admin user => editing admin (.userSetAdmin id isAdmin) fun _ =>
    (if isAdmin then "user.admin.grant" else "user.admin.revoke", user.username)

def copyFrom (tokenHash : Bytes) (id source : Int) : Prog Api (ApiResult Unit) :=
  changeUser tokenHash id fun admin target => do
    match ← ask (.userById source) with
    | none => pure (.error .notFound)
    | some user => editing admin (.copyAssignments source id) fun edited =>
        ("user.servers.copy", target.username ++ " <- " ++ user.username ++ ": +" ++
          match edited with
          | .count n => number n
          | _ => [])

def putSettings (tokenHash : Bytes) (settings : Settings) : Prog Api (ApiResult Unit) :=
  withEditor tokenHash fun admin =>
    match settings.check with
    | .error message => pure (.error (.badRequest message))
    | .ok () => editing admin (.settingsWrite settings) fun _ => ("settings.change", settings.describe)

/-- What `server_fields` made of a form: the name, the host, the port and the domain. -/
structure ServerFields where
  name : Text
  host : Text
  port : Nat
  domain : Option Text

def ServerFields.detail (f : ServerFields) : Text :=
  f.name ++ " (" ++ f.host ++ ":" ++ number f.port ++ ")"

def addServer (tokenHash : Bytes) (fields : ApiResult ServerFields) (groupId : Option Int) :
    Prog Api (ApiResult Unit) :=
  withForm tokenHash fields fun admin f =>
    editing admin (.serverCreate f.name f.host f.port groupId f.domain) fun _ => ("server.add", f.detail)

def updateServer (tokenHash : Bytes) (id : Int) (fields : ApiResult ServerFields) (groupId : Option Int) :
    Prog Api (ApiResult Unit) :=
  withForm tokenHash fields fun admin f =>
    editing admin (.serverUpdate id f.name f.host f.port groupId f.domain) fun _ => ("server.edit", f.detail)

/-- `import_servers`, with what `parse_import` made of the file. -/
def importServers (tokenHash : Bytes) (rows : ApiResult (List ImportRow)) : Prog Api (ApiResult Unit) :=
  withForm tokenHash rows fun admin rows =>
    if rows.isEmpty then pure (.error (.badRequest "the file has no rows"))
    else editing admin (.serversImport rows) fun edited =>
      ("server.import", match edited with
        | .counts created updated => number created ++ " created, " ++ number updated ++ " updated"
        | _ => [])

/-- `add_group`, with what `valid_name` made of the name. -/
def addGroup (tokenHash : Bytes) (name : ApiResult Text) : Prog Api (ApiResult Unit) :=
  withForm tokenHash name fun admin name => editing admin (.groupCreate name) fun _ => ("group.add", name)

def renameGroup (tokenHash : Bytes) (id : Int) (name : ApiResult Text) : Prog Api (ApiResult Unit) :=
  withForm tokenHash name fun admin name => editing admin (.groupRename id name) fun _ => ("group.rename", name)

def orderGroups (tokenHash : Bytes) (ids : List Int) : Prog Api (ApiResult Unit) :=
  withEditor tokenHash fun admin => editing admin (.groupOrder ids) fun _ => ("group.order", [])

def removeGroup (tokenHash : Bytes) (id : Int) : Prog Api (ApiResult Unit) :=
  withEditor tokenHash fun admin => editing admin (.groupDelete id) fun _ =>
    ("group.remove", number id)

/-! ## The credential store -/

def setRecovery (tokenHash : Bytes) (current : Option Text) (new : Text) : Prog Api (ApiResult Unit) :=
  withEditor tokenHash fun admin => do
    let changing ← ask .masterRecovery
    match ← Vault.setRecovery .service current new with
    | .error e => pure (.error (.ofVault e))
    | .ok () => audited admin.username (if changing.isSome then "recovery.change" else "recovery.set") []

def unlock (tokenHash : Bytes) (passphrase : Text) : Prog Api (ApiResult Unit) :=
  withAdmin tokenHash fun admin => do
    match ← Vault.adopt passphrase with
    | .error e => pure (.error (.ofVault e))
    | .ok key => do
      ask (.install key)
      audited admin.username "vault.unlock" []

/-- The host name, typed to confirm: `eq_ignore_ascii_case` of it trimmed. -/
def confirms (typed hostName : Text) : Bool := (trim typed).map Char.toLower == hostName.map Char.toLower

def resetCredentialStore (tokenHash : Bytes) (confirmHost : Text) : Prog Api (ApiResult Unit) :=
  withEditor tokenHash fun admin => do
    let hostName ← ask .hostName
    if confirms confirmHost hostName then do
      let removed ← Vault.reset .service
      audited admin.username "vault.reset" (number removed ++ " saved credential(s) deleted")
    else pure (.error (.badRequest ("type this proxy's host name, " ++ hostName ++ ", to confirm")))

/-! ## Saved credentials -/

def savingBlocked : Prog Api (Option Text) := do
  if ← ask .frozen then pure (some "saving is paused while this proxy is being migrated")
  else
    match ← ask .masterRecovery with
    | none => pure (some ("saving credentials is not yet enabled on this proxy; an administrator must set " ++
        "the recovery passphrase"))
    | some _ =>
      match ← ask .vaultKey with
      | none => pure (some "the credential store is locked; an administrator must unlock it")
      | some _ => pure none

/-- `SaveCredential` -/
structure SaveForm where
  username : Text
  domain : Option Text
  password : Text

namespace SaveForm

def trimmedDomain (f : SaveForm) : Option Text := (f.domain.map trim).filter (!·.isEmpty)

/-- The lengths are those of the encoded strings. -/
def valid (f : SaveForm) : Bool :=
  !(trim f.username).isEmpty && (utf8 (trim f.username)).length ≤ 256 && !f.password.isEmpty &&
    (utf8 f.password).length ≤ 1024 && f.trimmedDomain.all fun d => (utf8 d).length ≤ 256

end SaveForm

/-- The last part of `save_credential`: the password is sealed, and what came out is stored. -/
def sealAndPut (user : User) (server : Server) (sid : Text) (form : SaveForm) : Prog Api (ApiResult Unit) := do
  match ← ask .vaultKey with
  | none => pure (.error (.ofVault .locked))
  | some key =>
    match ← ask (.credentialPut user.id server.id ⟨trim form.username, form.trimmedDomain,
        ⟨key, Vault.credentialAad sid server.id, form.password⟩⟩) with
    | .error e => pure (.error (.ofStore e))
    | .ok () => audited user.username "credential.save" server.name

def saveCredential (tokenHash : Bytes) (serverId : Int) (form : SaveForm) : Prog Api (ApiResult Unit) :=
  withCurrentUser tokenHash fun user => do
    match ← savingBlocked with
    | some why => pure (.error (.conflict why))
    | none =>
      match ← resolve user.id (number serverId) with
      | .error _ => pure (.error .notFound)
      | .ok server =>
        if form.valid then
          match user.sid with
          | none => pure (.error (.conflict "sign in again before saving"))
          | some sid => sealAndPut user server sid form
        else pure (.error (.badRequest "a username and password are required"))

def forgetCredential (tokenHash : Bytes) (serverId : Int) : Prog Api (ApiResult Unit) :=
  withCurrentUser tokenHash fun user => do
    if ← ask .frozen then
      pure (.error (.conflict "changes are paused while this proxy is being migrated"))
    else
      match ← resolve user.id (number serverId) with
      | .error _ => pure (.error .notFound)
      | .ok server =>
        if ← ask (.credentialDelete user.id server.id) then
          audited user.username "credential.forget" server.name
        else pure (.ok ())

end WebAccess
