/-
Export and import of the whole database (`admin.rs`, `migrate.rs`). An export copies the database,
freezing it first if it is to be moved, and hands the copy over encrypted under the recovery
passphrase. A freeze it set is pending until then: an export that ends short of the hand-over lifts
it again, in the database it was set in. An import decrypts a copy, takes its master key over for
this host and puts it in place of the database, under the gate held alone.
-/
import WebAccess.Serve.Edits

namespace WebAccess

open Codec Wire Process

/-- `From<MigrateError>`, of the errors of the vault. -/
def ApiError.ofMigrate : VaultError → ApiError
  | .wrongPassphrase => badRequest "the passphrase is not correct"
  | .noRecovery => conflict "set a recovery passphrase before exporting"
  | e => ofVault e

def aadExport : Bytes := utf8 "web-access export v1"

/-- The data of an archive: a database encrypted under a passphrase. -/
abbrev Archive := Sealed Text Store

/-! ## Export -/

/-- What an export meets outside the proxy: whether the requester is still there once the gate is
held, whether the copy can be made and read, whether it can be packaged, whether the requester is
still there when it is recorded, and whether it is there to be handed the archive. -/
structure Fate where
  wanted : Bool := true
  copied : Bool := true
  packaged : Bool := true
  collected : Bool := true
  delivered : Bool := true

/-- A copy of the database, who asked for it, the generation it was made in, and whether the export
set the freeze. -/
structure Copied where
  admin : User
  db : Store
  generation : Nat
  froze : Bool

/-- `snapshot_of`: the passphrase has to open the recovery wrap in the copy. -/
def snapshotOf (passphrase : Text) (copied : Bool) : Prog Api (ApiResult Store) := do
  let db ← ask .snapshot
  if copied then
    match Vault.verifyRecovery db.masterRecovery passphrase with
    | .error e => pure (.error (.ofMigrate e))
    | .ok _ => pure (.ok db)
  else pure (.error .internal)

def copyFor (admin : User) (passphrase : Text) (copied froze : Bool) : Prog Api (ApiResult Copied) := do
  match ← snapshotOf passphrase copied with
  | .error e => pure (.error e)
  | .ok db => do
    let generation ← ask .generation
    pure (.ok ⟨admin, db, generation, froze⟩)

def lift : Prog Api Unit := do
  ask (.setFrozen false)
  ask (.setFreezePending false)

/-- What a freezing export does in its first hold: the freeze is pending, and a copy that fails lifts
it at once. -/
def freezeAndCopy (tokenHash : Bytes) (passphrase : Text) (fate : Fate) : Prog Api (ApiResult Copied) :=
  if fate.wanted then withAdmin tokenHash fun admin => do
    if ← ask .frozen then copyFor admin passphrase fate.copied false
    else do
      ask (.setFreezePending true)
      ask (.setFrozen true)
      match ← copyFor admin passphrase fate.copied true with
      | .ok copied => pure (.ok copied)
      | .error e => do
        lift
        pure (.error e)
  else pure (.error .gone)

/-- What any other export does in its first hold. -/
def plainCopy (tokenHash : Bytes) (passphrase : Text) (fate : Fate) : Prog Api (ApiResult Copied) :=
  if fate.wanted then withAdmin tokenHash fun admin => copyFor admin passphrase fate.copied false
  else pure (.error .gone)

/-- The first hold of `export_task`: alone if the export freezes, so that requests in flight finish
first. -/
def copyDatabase (tokenHash : Bytes) (passphrase : Text) (freeze : Bool) (fate : Fate) : Prog Api (ApiResult Copied) :=
  if freeze then holding .exclusive (freezeAndCopy tokenHash passphrase fate)
  else holding .shared (plainCopy tokenHash passphrase fate)

def unfreezeIfCurrent (generation : Nat) : Prog Api Unit := holding .exclusive do
  let current ← ask .generation
  if current == generation then lift else pure ()

/-- The export ends short of the hand-over: dropping it lifts a freeze it set (`FreezeUndo`), and
gives the export lock back after that. -/
def abandon (c : Copied) : Prog Api Unit :=
  if c.froze then do
    unfreezeIfCurrent c.generation
    ask .unlockExport
  else ask .unlockExport

/-- The last hold of `export_task`: whether the requester is still there. -/
def recordExport (c : Copied) (freeze : Bool) (fileName : Text) (fate : Fate) : Prog Api Bool := holding .shared do
  if fate.collected then do
    let current ← ask .generation
    if current == c.generation then do
      ask (.audit ⟨c.admin.username, if freeze then "export.freeze" else "export", fileName⟩)
      pure true
    else pure true
  else pure false

/-- `Delivery::hand_over`, of an export that set the freeze: it stops being pending, and stays. -/
def handOver (c : Copied) : Prog Api Unit := do
  holding .shared do
    let current ← ask .generation
    if current == c.generation then ask (.setFreezePending false) else pure ()
  ask .unlockExport

/-- What becomes of a copy: `package`, the end of `export_task`, and `hand_over`. -/
def deliver (passphrase : Text) (freeze : Bool) (fileName : Text) (fate : Fate) (c : Copied) :
    Prog Api (ApiResult Archive) :=
  if fate.packaged then do
    if ← recordExport c freeze fileName fate then
      if fate.delivered then
        if c.froze then do
          handOver c
          pure (.ok ⟨passphrase, aadExport, c.db⟩)
        else do
          ask .unlockExport
          pure (.ok ⟨passphrase, aadExport, c.db⟩)
      else do
        abandon c
        pure (.error .gone)
    else do
      abandon c
      pure (.error .gone)
  else do
    abandon c
    pure (.error .internal)

/-- `export` and `export_task`. A wrong passphrase is turned away before anything waits. -/
def exportDatabase (tokenHash : Bytes) (passphrase : Text) (freeze : Bool) (fileName : Text) (fate : Fate) :
    Prog Api (ApiResult Archive) := withAdminToken tokenHash do
  match Vault.verifyRecovery (← ask .masterRecovery) passphrase with
  | .error e => pure (.error (.ofMigrate e))
  | .ok _ => do
    ask .lockExport
    match ← copyDatabase tokenHash passphrase freeze fate with
    | .error e => do
      ask .unlockExport
      pure (.error e)
    | .ok c => deliver passphrase freeze fileName fate c

def unfreeze (tokenHash : Bytes) : Prog Api (ApiResult Unit) :=
  withAdmin tokenHash fun admin => do
    lift
    audited admin.username "unfreeze" []

/-! ## Import -/

def holdsData (c : Counts) : Bool := decide (0 < c.servers) || decide (1 < c.users)

/-- The staged database of `apply`: its key wrapped for this host, the flags off, a new instance. -/
def staged (protector : Protector) (passphrase instanceId : Text) (db : Store) : Except VaultError (Key × Store) :=
  match Vault.verifyRecovery db.masterRecovery passphrase with
  | .error e => .error e
  | .ok key => .ok (key, { db with
      masterLocal := some (Vault.protect protector key)
      frozen := false
      freezePending := false
      instanceId := some instanceId })

/-- The swap of `apply`: the database, then what was known of the one before. -/
def swap (key : Key) (db : Store) : Prog Api Unit := do
  ask (.replaceWith db)
  ask .bumpGeneration
  ask (.install key)
  ask .clearTickets
  let _ ← endAll
  pure ()

/-- `apply`; `installed` is whether the file can be put in place. -/
def applyImport (blob : Archive) (passphrase : Text) (installed : Except Text Unit) : Prog Api (ApiResult Counts) :=
  match blob.openWith passphrase aadExport with
  | none => pure (.error (.ofMigrate .wrongPassphrase))
  | some db => do
    let protector ← ask .protector
    let token ← ask .randomToken
    match staged protector passphrase (token.take 32) db with
    | .error e => pure (.error (.ofMigrate e))
    | .ok (key, db) => do
      let _ ← ask .snapshot
      match installed with
      | .error e => pure (.error (.badRequest ("the database file is in use and could not be replaced; stop " ++
          "other tools using it and retry (" ++ e ++ ")")))
      | .ok () => do
        swap key db
        pure (.ok db.counts)

/-- `confirm`, with what is held under the upload's name. -/
def confirmImport (upload : Option Archive) (passphrase : Text) (confirmHost : Option Text)
    (installed : Except Text Unit) : Prog Api (ApiResult Counts) :=
  match upload with
  | none => pure (.error (.badRequest "that upload has expired; upload the file again"))
  | some blob => do
    let current ← ask .counts
    let hostName ← ask .hostName
    if holdsData current && !confirmHost.any (confirms · hostName) then
      pure (.error (.badRequest ("this proxy already holds " ++ number current.users ++ " user(s) and " ++
        number current.servers ++ " server(s); type its name, " ++ hostName ++ ", to replace them")))
    else applyImport blob passphrase installed

/-- `import_exclusive`; `wanted` is whether the requester is still there once the gate is held. -/
def importExclusive (tokenHash : Bytes) (wanted : Bool) (upload : Option Archive) (passphrase : Text)
    (confirmHost : Option Text) (installed : Except Text Unit) : Prog Api (ApiResult Unit) :=
  withAdminToken tokenHash (holding .exclusive
    (if wanted then withAdmin tokenHash fun admin => do
      match ← confirmImport upload passphrase confirmHost installed with
      | .error e => pure (.error e)
      | .ok counts => audited admin.username "import" (number counts.users ++ " users, " ++
          number counts.servers ++ " servers, " ++ number counts.assignments ++ " assignments, " ++
          number counts.credentials ++ " saved credentials")
    else pure (.error .gone)))

/-- `upload_import`, with what `stage` made of the body: where it came from, and when. -/
def uploadImport (tokenHash : Bytes) (upload : ApiResult Text) : Prog Api (ApiResult Unit) :=
  withAdminToken tokenHash (holding .shared (withAdmin tokenHash fun admin =>
    match upload with
    | .error e => pure (.error e)
    | .ok origin => do
      let _ ← ask .counts
      audited admin.username "import.upload" origin))

/-- `cancel_import`: what is held under the upload's name is not part of the database. -/
def cancelImport (tokenHash : Bytes) : Prog Api (ApiResult Unit) :=
  withAdminToken tokenHash (withAdmin tokenHash fun _ => pure (.ok ()))

/-! ## Tools -/

/-- The command-line tools that work on a database in use (`main.rs`), each in a process of its own
and without the gate. What they print is left out. -/
inductive Tool
  | replaceRecovery (new : Text)
  | setRecovery (current new : Text)
  | setDirectory (password : Text)
  | unlock (passphrase : Text)
  | resetCredentials (confirmHost : Text)
  | localAccount (username hash sid : Text) (admin : Bool)

/-- A line of a tool, if it did what it was for. -/
def consoleLine {α : Type} (action detail : Text) : Except VaultError α → Prog Api Unit
  | .error _ => pure ()
  | .ok _ => ask (.audit ⟨"console", action, detail⟩)

/-- `set_secret`, `unlock`, `reset_credentials` and `local_account`. -/
def Tool.program (tool : Tool) : Prog Api Unit := do
  let key ← Vault.load
  match tool with
  | replaceRecovery new => do
    let done ← Vault.replaceRecovery (.tool key) new
    consoleLine "recovery.replaced" "without the previous passphrase" done
  | setRecovery current new => do
    let held ← ask .masterRecovery
    let done ← Vault.setRecovery (.tool key) (if held.isSome then some current else none) new
    consoleLine "recovery.set" [] done
  | setDirectory password => do
    let done ← Vault.setDirectoryPassword (.tool key) password
    consoleLine "directory.password" [] done
  | unlock passphrase =>
    if key.isSome then pure ()
    else do
      let done ← Vault.adopt passphrase
      consoleLine "vault.unlock" [] done
  | resetCredentials confirmHost => do
    let _ ← ask .counts
    let hostName ← ask .hostName
    if confirms confirmHost hostName then do
      let removed ← Vault.reset (.tool key)
      ask (.audit ⟨"console", "vault.reset", number removed ++ " saved credential(s) deleted"⟩)
    else pure ()
  | localAccount username hash sid admin => do
    match ← ask (.localAccountSet username hash sid) with
    | .error _ => pure ()
    | .ok id => do
      let line : AuditLine := ⟨"console", "local-account.set", username⟩
      if admin then do
        match ← ask (.edit (.userSetAdmin id true)) with
        | .error _ => pure ()
        | .ok _ => ask (.audit line)
      else ask (.audit line)

end WebAccess
