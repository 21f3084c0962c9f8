/-
An export from the copy to the archive, and an archive from the upload to the host it is imported on
(`snapshot_verified`, `package`, `read_zip`, `stage`, `sweep_pending` and `cancel` of `migrate.rs`). Zip, JSON and
SHA-256 are libraries: of them only that what was packed is what is unpacked is known.

The passphrase is asked for three times, of the copy, of the archive and of the copy again, and it is the same one;
the key comes out of the recovery wrap, and so is the one the saved passwords were sealed under, whatever the
other host wraps keys with.
-/
import WebAccess.Serve.Importing
import Mathlib.Data.List.Induction

namespace WebAccess

open Codec Wire Process

/-! ## The archive -/

/-- `FORMAT` -/
def archiveFormat : Nat := 1

def schemaVersion : Int := 6

structure Manifest where
  format : Nat
  schema : Int
  sourceHost : Text
  exportedAt : Int
  dataSha256 : Text
  counts : Counts

/-- The libraries: a zip of the two files of an archive, each there or not and readable or not; JSON of manifests; a
checksum. -/
structure Packing (File Json : Type) where
  zip : Json → Archive → File
  unzip : File → Except Text (Option (Except Text Json) × Option (Except Text Archive))
  toJson : Manifest → Json
  parseJson : Json → Except Text Manifest
  digest : Archive → Text
  unzip_zip : ∀ json blob, unzip (zip json blob) = .ok (some (.ok json), some (.ok blob))
  parseJson_toJson : ∀ manifest, parseJson (toJson manifest) = .ok manifest

/-- `MigrateError`, of an archive that is read -/
inductive ArchiveError
  | badArchive (why : Text)
  | newer (schema : Int)

structure Export (File : Type) where
  fileName : Text
  bytes : File
  manifest : Manifest

/-- `snapshot_verified`: the copy, if the passphrase opens the recovery wrap in it. -/
def snapshotVerified (db : Store) (passphrase : Text) : Except VaultError (Store × Counts) :=
  match Vault.verifyRecovery db.masterRecovery passphrase with
  | .error e => .error e
  | .ok _ => .ok (db, db.counts)

section Archive

variable {File Json : Type} (p : Packing File Json) (w : World)

def manifestOf (hostName : Text) (blob : Archive) (counts : Counts) : Manifest where
  format := archiveFormat
  schema := schemaVersion
  sourceHost := hostName
  exportedAt := w.now
  dataSha256 := p.digest blob
  counts := counts

def package (hostName passphrase : Text) (db : Store) (counts : Counts) : Export File :=
  let blob : Archive := ⟨passphrase, aadExport, db⟩
  let manifest := manifestOf p w hostName blob counts
  { fileName := "web-access-export-" ++ hostName ++ '-' :: utcStamp w.now ++ ".zip"
    bytes := p.zip (p.toJson manifest) blob
    manifest }

/-- `export` of `migrate.rs` -/
def exportArchive (a : App) (passphrase : Text) : Except VaultError (Export File) := do
  let (db, counts) ← snapshotVerified a.store passphrase
  pure (package p w a.hostName passphrase db counts)

def readEntry {α : Type} (name : Text) (entry : Option (Except Text α)) : Except ArchiveError α :=
  match entry with
  | none => .error (.badArchive (name ++ " is missing"))
  | some (.error e) =>
    .error (.badArchive (name ++ " could not be read; the file is damaged or incomplete: " ++ e))
  | some (.ok content) => .ok content

/-- What `read_zip` checks of a manifest and its data. -/
def checkManifest (manifest : Manifest) (blob : Archive) : Except ArchiveError (Manifest × Archive) :=
  if manifest.format ≠ archiveFormat then
    .error (.badArchive ("format " ++ number manifest.format ++ " is not " ++ number archiveFormat))
  else if schemaVersion < manifest.schema then .error (.newer manifest.schema)
  else if p.digest blob ≠ manifest.dataSha256 then
    .error (.badArchive "the data does not match its checksum; the file is damaged or was altered")
  else .ok (manifest, blob)

def readZip (bytes : File) : Except ArchiveError (Manifest × Archive) := do
  let (json, data) ← (p.unzip bytes).mapError fun e =>
    .badArchive ("this is not a complete export; the file is damaged or incomplete: " ++ e)
  let json ← readEntry "manifest.json" json
  let manifest ← (p.parseJson json).mapError fun e => .badArchive ("manifest.json: " ++ e)
  let blob ← readEntry "data.db.enc" data
  checkManifest p manifest blob

def maxPending : Nat := 2

def oldestUpload : List (Text × PendingImport) → Option (Text × PendingImport)
  | [] => none
  | u :: us => match oldestUpload us with
    | none => some u
    | some v => if v.2.uploaded < u.2.uploaded then some v else some u

/-- The loop of `stage`: the oldest gives way while there are too many. -/
def makeRoom : Nat → List (Text × PendingImport) → List (Text × PendingImport)
  | 0, held => held
  | n + 1, held =>
    if maxPending ≤ held.length then
      match oldestUpload held with
      | none => held
      | some oldest => makeRoom n (held.filter fun u => u.1 != oldest.1)
    else held

/-- `stage`: the upload's name, and the manifest. -/
def stage (s : Site) (bytes : File) : Except ArchiveError (Text × Manifest) × Site :=
  match readZip p bytes with
  | .error e => (.error e, s)
  | .ok (manifest, blob) =>
    let held := s.uploads.filter fun u => decide (w.instant - u.2.uploaded < pendingTtl)
    let held := makeRoom held.length held
    (.ok (w.token, manifest),
      { s with uploads := (w.token, ⟨blob, w.instant⟩) :: held.filter fun u => u.1 != w.token })

end Archive

/-! ## What is uploaded -/

section Uploads

variable {File Json : Type} {p : Packing File Json} {w : World}

variable {bytes : File} {manifest : Manifest} {blob : Archive} {held : List (Text × PendingImport)}

theorem readZip_of_unzip {json : Json} (hzip : p.unzip bytes = .ok (some (.ok json), some (.ok blob)))
    (hjson : p.parseJson json = .ok manifest) : readZip p bytes = checkManifest p manifest blob := by
  unfold readZip
  rw [hzip]
  change ((p.parseJson json).mapError _ >>= _) = _
  rw [hjson]
  rfl

theorem checkManifest_manifestOf (hostName : Text) (blob : Archive) (counts : Counts) :
    checkManifest p (manifestOf p w hostName blob counts) blob = .ok (manifestOf p w hostName blob counts, blob) := by
  unfold checkManifest
  exact (if_neg (not_not_intro rfl)).trans ((if_neg (lt_irrefl schemaVersion)).trans (if_neg (not_not_intro rfl)))

theorem readZip_package (hostName passphrase : Text) (db : Store) (counts : Counts) :
    readZip p (package p w hostName passphrase db counts).bytes =
      .ok ((package p w hostName passphrase db counts).manifest, ⟨passphrase, aadExport, db⟩) :=
  (readZip_of_unzip (p.unzip_zip _ _) (p.parseJson_toJson _)).trans (checkManifest_manifestOf _ _ _)

theorem mem_of_oldestUpload {u : Text × PendingImport} (h : oldestUpload held = some u) : u ∈ held := by
  induction held with
  | nil => cases h
  | cons v held ih =>
    unfold oldestUpload at h
    split at h
    · cases h
      exact List.mem_cons_self
    · rename_i oldest holdest
      split at h
      · cases h
        exact List.mem_cons_of_mem v (ih holdest)
      · cases h
        exact List.mem_cons_self

theorem oldestUpload_ne_none (h : held ≠ []) : oldestUpload held ≠ none := by
  cases held with
  | nil => exact absurd rfl h
  | cons u held =>
    unfold oldestUpload
    split
    · simp
    · split <;> simp

theorem length_makeRoom (n : Nat) (held : List (Text × PendingImport)) (h : held.length ≤ n) :
    (makeRoom n held).length < maxPending := by
  induction n generalizing held with
  | zero =>
    rw [List.length_eq_zero_iff.1 (Nat.le_zero.1 h)]
    decide
  | succ n ih =>
    unfold makeRoom
    split
    · rename_i hfull
      cases holdest : oldestUpload held with
      | none =>
        refine absurd holdest (oldestUpload_ne_none ?_)
        rintro rfl
        exact absurd hfull (by decide)
      | some oldest =>
        have hfewer : (held.filter fun u => u.1 != oldest.1).length < held.length :=
          List.length_filter_lt_length_iff_exists.2 ⟨oldest, mem_of_oldestUpload holdest, by simp⟩
        exact ih _ (by omega)
    · omega

theorem makeRoom_sublist (n : Nat) (held : List (Text × PendingImport)) : (makeRoom n held).Sublist held := by
  induction n generalizing held with
  | zero => exact .refl held
  | succ n ih =>
    unfold makeRoom
    split
    · split
      · exact .refl held
      · exact (ih _).trans List.filter_sublist
    · exact .refl held

theorem lookup_stage {s : Site} (h : readZip p bytes = .ok (manifest, blob)) :
    (stage p w s bytes).1 = .ok (w.token, manifest) ∧
      (stage p w s bytes).2.uploads.lookup w.token = some ⟨blob, w.instant⟩ := by
  simp [stage, h]

end Uploads

/-! ## The programs of an export -/

/-- A request to export with a passphrase that does not open the recovery wrap is turned away, and nothing is
changed. -/
theorem exportDatabase_refused {a : App} {passphrase : Text} {e : VaultError}
    (h : Vault.verifyRecovery a.store.masterRecovery passphrase = .error e) (me : Holder) (w : World)
    (tokenHash : Bytes) (freeze : Bool) (fileName : Text) (fate : Fate) :
    ∃ refused, (exportDatabase tokenHash passphrase freeze fileName fate).alone (App.answer me w) a =
        (.error refused, a) := by
  unfold exportDatabase withAdminToken
  rw [Prog.alone_bind]
  generalize hadmin : (ask (.adminToken tokenHash)).alone (App.answer me w) a = asked
  obtain ⟨admin, a'⟩ := asked
  obtain rfl : a = a' := congrArg Prod.snd hadmin
  cases admin with
  | false => exact ⟨_, rfl⟩
  | true =>
    change ∃ refused, ((match Vault.verifyRecovery a.store.masterRecovery passphrase with
      | .error e => pure (.error (.ofMigrate e))
      | .ok _ => _ : Prog Api (ApiResult Archive)).alone (App.answer me w) a) = _
    rw [h]
    exact ⟨_, rfl⟩

/-! ## The round trip -/

namespace Store

def opened (db : Store) (vault : Option Key) (userId serverId : Int) (sid : Text) : Option Text := do
  let stored ← db.credentialGet userId serverId
  let key ← vault
  stored.secret.openWith key (Vault.credentialAad sid serverId)

/-- Every saved password, and the directory's, is sealed under a key. -/
structure SealedUnder (db : Store) (key : Key) : Prop where
  credentials : ∀ c ∈ db.credentials, ∃ sid password,
    c.stored.secret = ⟨key, Vault.credentialAad sid c.serverId, password⟩
  directory : ∀ sealed, db.directoryPassword = some sealed →
    ∃ password, sealed = ⟨key, Vault.aadDirectoryPassword, password⟩

end Store

/-- A database is on another host as it was: the rows and the settings are the same, every saved password opens to
what it was, with the key that is in memory and that this host's wrap holds; it is not frozen, and its instance is
the one drawn here. -/
structure Restored (w : World) (db : Store) (key : Key) (a : App) : Prop where
  users : a.store.users = db.users
  groups : a.store.groups = db.groups
  servers : a.store.servers = db.servers
  assignments : a.store.assignments = db.assignments
  credentials : a.store.credentials = db.credentials
  sessions : a.store.sessions = db.sessions
  sessionLog : a.store.sessionLog = db.sessionLog
  activity : a.store.auditLog = db.auditLog
  settings : a.store.settings = db.settings
  recovery : a.store.masterRecovery = db.masterRecovery
  directoryPassword : a.store.directoryPassword = db.directoryPassword
  unlocked : a.vault = some key
  wrap : a.store.masterLocal.bind (Vault.unprotect a.protector) = some key
  opens : ∀ userId serverId sid, a.store.opened a.vault userId serverId sid = db.opened (some key) userId serverId sid
  readable : ∀ c ∈ a.store.credentials, ∃ sid password,
    a.vault.bind (c.stored.secret.openWith · (Vault.credentialAad sid c.serverId)) = some password
  directoryReadable : ∀ sealed, a.store.directoryPassword = some sealed →
    ∃ password, a.vault.bind (sealed.openWith · Vault.aadDirectoryPassword) = some password
  frozen : a.store.frozen = false
  pending : a.store.freezePending = false
  freshInstance : a.store.instanceId = some (w.token.take 32)

/-- The staged database of an import, once its key is known. -/
def Store.takenOver (db : Store) (protector : Protector) (key : Key) (instanceId : Text) : Store :=
  { db with
    masterLocal := some (Vault.protect protector key)
    frozen := false
    freezePending := false
    instanceId := some instanceId }

section RoundTrip

variable {w : World} {db : Store} {key : Key} {passphrase : Text}

theorem staged_of_wrap (h : Vault.verifyRecovery db.masterRecovery passphrase = .ok key) (protector : Protector)
    (instanceId : Text) :
    staged protector passphrase instanceId db = .ok (key, db.takenOver protector key instanceId) := by
  simp only [staged, h, Store.takenOver]

variable {other uploadId : Text} {s : Site} {uploaded : Nat} {confirmHost : Option Text}

theorem unpack_wrong (h : other ≠ passphrase) (faults : Faults) (protector : Protector) :
    unpack w faults protector ⟨passphrase, aadExport, db⟩ other = .error .wrongPassphrase := by
  have hopen : (⟨passphrase, aadExport, db⟩ : Archive).openWith other aadExport = none :=
    if_neg fun hboth => h hboth.1.symm
  simp only [unpack, hopen]
  rfl

theorem unpack_right (h : Vault.verifyRecovery db.masterRecovery passphrase = .ok key) (lists : Bool)
    (removes : Text → Bool) (protector : Protector) :
    unpack w { lists, removes } protector ⟨passphrase, aadExport, db⟩ passphrase =
      .ok (key, db.takenOver protector key (w.token.take 32)) := by
  simp only [unpack, Sealed.openWith_self, attempt, Except.mapError, staged_of_wrap h, bind,
    Except.bind, pure, Except.pure]

theorem restored_swapped (hsealed : db.SealedUnder key) (a : App) :
    Restored w db key (swapped a key (db.takenOver a.protector key (w.token.take 32))) where
  users := rfl
  groups := rfl
  servers := rfl
  assignments := rfl
  credentials := rfl
  sessions := rfl
  sessionLog := rfl
  activity := rfl
  settings := rfl
  recovery := rfl
  directoryPassword := rfl
  unlocked := rfl
  wrap := Sealed.openWith_self _ _ _
  opens := fun _ _ _ => rfl
  readable := by
    intro c hc
    obtain ⟨sid, password, heq⟩ := hsealed.credentials c hc
    refine ⟨sid, password, ?_⟩
    rw [heq]
    exact Sealed.openWith_self _ _ _
  directoryReadable := by
    intro sealed hsome
    obtain ⟨password, rfl⟩ := hsealed.directory sealed hsome
    exact ⟨password, Sealed.openWith_self _ _ _⟩
  frozen := rfl
  pending := rfl
  freshInstance := rfl

variable {blob : Archive}

theorem heldUpload_of_lookup (h : s.uploads.lookup uploadId = some ⟨blob, uploaded⟩)
    (htime : w.instant - uploaded < pendingTtl) : heldUpload w s uploadId = some ⟨blob, uploaded⟩ := by
  unfold heldUpload
  rw [h]
  exact Option.filter_eq_some_iff.2 ⟨rfl, decide_eq_true htime⟩

theorem confirmed_of_held {p : PendingImport} (h : heldUpload w s uploadId = some p)
    (hconfirm : holdsData s.app.store.counts = true → confirmHost.any (confirms · s.app.hostName) = true)
    (lists : Bool) (removes : Text → Bool) : confirmed w { lists, removes } s uploadId confirmHost = .ok p.blob := by
  have hgo : ¬ (holdsData s.app.store.counts && !confirmHost.any (confirms · s.app.hostName)) = true := by
    intro hboth
    obtain ⟨hdata, hnot⟩ := (Bool.and_eq_true _ _).mp hboth
    rw [hconfirm hdata] at hnot
    cases hnot
  unfold confirmed
  rw [h]
  exact if_neg hgo

theorem blob_of_confirmed {faults : Faults} (h : confirmed w faults s uploadId confirmHost = .ok blob) :
    ∃ p, s.uploads.lookup uploadId = some p ∧ p.blob = blob := by
  unfold confirmed at h
  cases hheld : heldUpload w s uploadId with
  | none =>
    rw [hheld] at h
    cases h
  | some p =>
    rw [hheld] at h
    refine ⟨p, (Option.filter_eq_some_iff.1 hheld).1, ?_⟩
    cases hcounts : faults.counts with
    | some why => simp [attempt, hcounts, bind, Except.bind] at h
    | none =>
      simp only [attempt, hcounts, bind, Except.bind] at h
      split at h
      · cases h
      · exact Except.ok.inj h

theorem confirm_wrong (h : other ≠ passphrase)
    (hlookup : s.uploads.lookup uploadId = some ⟨⟨passphrase, aadExport, db⟩, uploaded⟩) (faults : Faults)
    (confirmHost : Option Text) : ∃ e, confirm w faults s uploadId other confirmHost = (.error e, s) := by
  cases hconfirmed : confirmed w faults s uploadId confirmHost with
  | error e => exact ⟨e, confirm_of_error (by rw [prepare, hconfirmed]; rfl)⟩
  | ok blob =>
    obtain ⟨p, hp, rfl⟩ := blob_of_confirmed hconfirmed
    obtain rfl : ⟨⟨passphrase, aadExport, db⟩, uploaded⟩ = p := Option.some.inj (hlookup.symm.trans hp)
    refine ⟨.wrongPassphrase, confirm_of_error ?_⟩
    rw [prepare, hconfirmed]
    exact unpack_wrong h faults s.app.protector

theorem confirm_right (hwrap : Vault.verifyRecovery db.masterRecovery passphrase = .ok key)
    (hsealed : db.SealedUnder key)
    (hlookup : s.uploads.lookup uploadId = some ⟨⟨passphrase, aadExport, db⟩, uploaded⟩)
    (htime : w.instant - uploaded < pendingTtl)
    (hconfirm : holdsData s.app.store.counts = true → confirmHost.any (confirms · s.app.hostName) = true)
    (hname : backupName w.now ∉ s.dir.names) (lists : Bool) (removes : Text → Bool) :
    ∃ s', confirm w { lists, removes } s uploadId passphrase confirmHost = (.ok db.counts, s') ∧
      Restored w db key s'.app := by
  have hheld := heldUpload_of_lookup hlookup htime
  have hprepare : prepare w { lists, removes } s uploadId passphrase confirmHost =
      .ok (key, db.takenOver s.app.protector key (w.token.take 32)) := by
    rw [prepare, confirmed_of_held hheld hconfirm]
    exact unpack_right hwrap lists removes s.app.protector
  exact ⟨_, confirm_of_copy hprepare ⟨hname, rfl⟩, restored_swapped hsealed s.app⟩

theorem ne_of_verifyRecovery_error {e : VaultError}
    (hwrap : Vault.verifyRecovery db.masterRecovery passphrase = .ok key)
    (h : Vault.verifyRecovery db.masterRecovery other = .error e) : other ≠ passphrase := by
  rintro rfl
  rw [hwrap] at h
  cases h

/-- A database whose saved passwords are sealed under the key in its recovery wrap is exported, uploaded on another
host and imported there with the passphrase, and is on that host as it was, whatever was there before and whatever
has happened there since the upload, as long as it is still held. With any other passphrase no archive is made of
it, the archive is not imported, and nothing is changed. -/
theorem export_import_round_trip {File Json : Type} (p : Packing File Json) (source : App)
    (passphrase : Text) (key : Key)
    (hwrap : Vault.verifyRecovery source.store.masterRecovery passphrase = .ok key)
    (hsealed : source.store.SealedUnder key) (made uploaded : World) (target : Site) :
    ∃ archive, exportArchive p made source passphrase = .ok archive ∧
      (stage p uploaded target archive.bytes).1 = .ok (uploaded.token, archive.manifest) ∧
      (∀ w s confirmHost lists removes,
        s.uploads.lookup uploaded.token = (stage p uploaded target archive.bytes).2.uploads.lookup uploaded.token →
        w.instant - uploaded.instant < pendingTtl →
        (holdsData s.app.store.counts = true → confirmHost.any (confirms · s.app.hostName) = true) →
        backupName w.now ∉ s.dir.names →
        ∃ s', confirm w { lists, removes } s uploaded.token passphrase confirmHost = (.ok source.store.counts, s') ∧
          Restored w source.store key s'.app) ∧
      ∀ other e, Vault.verifyRecovery source.store.masterRecovery other = .error e →
        (∀ w, exportArchive p w source other = .error e) ∧
        (∀ me w tokenHash freeze fileName fate, ∃ refused,
          (exportDatabase tokenHash other freeze fileName fate).alone (App.answer me w) source =
            (.error refused, source)) ∧
        ∀ w faults s confirmHost,
          s.uploads.lookup uploaded.token = (stage p uploaded target archive.bytes).2.uploads.lookup uploaded.token →
          ∃ refused, confirm w faults s uploaded.token other confirmHost = (.error refused, s) := by
  have hexport : exportArchive p made source passphrase =
      .ok (package p made source.hostName passphrase source.store source.store.counts) := by
    simp only [exportArchive, snapshotVerified, hwrap]
    rfl
  obtain ⟨hstaged, hheld⟩ := lookup_stage (w := uploaded) (s := target)
    (readZip_package (p := p) (w := made) source.hostName passphrase source.store source.store.counts)
  refine ⟨_, hexport, hstaged, ?_, ?_⟩
  · intro w s confirmHost lists removes hlookup htime hconfirm hname
    exact confirm_right hwrap hsealed (hlookup.trans hheld) htime hconfirm hname lists removes
  · intro other e hother
    refine ⟨fun w => ?_, ?_, ?_⟩
    · simp only [exportArchive, snapshotVerified, hother]
      rfl
    · exact fun me w tokenHash freeze fileName fate => exportDatabase_refused hother me w tokenHash freeze fileName fate
    · intro w faults s confirmHost hlookup
      exact confirm_wrong (ne_of_verifyRecovery_error hwrap hother) (hlookup.trans hheld) faults confirmHost

end RoundTrip

/-- Libraries that keep an archive as it is. -/
def samplePacking : Packing (Manifest × Archive) Manifest where
  zip := Prod.mk
  unzip f := .ok (some (.ok f.1), some (.ok f.2))
  toJson := id
  parseJson := .ok
  digest _ := []
  unzip_zip _ _ := rfl
  parseJson_toJson _ := rfl

def sampleSource : App where
  hostName := ['a']
  protector := 1
  store := {
    masterLocal := some (Vault.protect 1 7)
    masterRecovery := some (Vault.wrapRecovery 7 ['p'])
    credentials := [⟨1, 2, ⟨['u'], none, ⟨7, Vault.credentialAad ['S'] 2, ['x']⟩⟩⟩] }
  vault := some 7

def sampleTarget : Site := ⟨{ hostName := ['b'], protector := 2, vault := some 3 }, [], ⟨[], Directory.distinct_nil⟩⟩

theorem sealedUnder_sampleSource : sampleSource.store.SealedUnder 7 where
  credentials := by
    intro c hc
    obtain rfl := List.mem_singleton.1 hc
    exact ⟨['S'], ['x'], rfl⟩
  directory := by
    intro sealed h
    cases h

/-- The sample source is moved, and a credential of it can be read on the target. -/
theorem export_import_round_trip_one :
    Vault.verifyRecovery sampleSource.store.masterRecovery ['p'] = .ok 7 ∧ sampleSource.store.SealedUnder 7 ∧
      ∃ archive s', exportArchive samplePacking {} sampleSource ['p'] = .ok archive ∧
        confirm {} {} (stage samplePacking { token := ['t'] } sampleTarget archive.bytes).2 ['t'] ['p'] none =
          (.ok sampleSource.store.counts, s') ∧
        s'.app.store.opened s'.app.vault 1 2 ['S'] = some ['x'] := by
  obtain ⟨archive, hexport, -, himport, -⟩ := export_import_round_trip samplePacking sampleSource ['p'] 7 rfl
    sealedUnder_sampleSource {} { token := ['t'] } sampleTarget
  obtain ⟨s', hconfirm, hrestored⟩ := himport {} (stage samplePacking { token := ['t'] } sampleTarget archive.bytes).2
    none
    true (fun _ => true) rfl (by decide) (fun h =>
      absurd h (by cases hexport; decide)) (by cases hexport; exact List.not_mem_nil)
  refine ⟨rfl, sealedUnder_sampleSource, archive, s', hexport, hconfirm, (hrestored.opens 1 2 ['S']).trans ?_⟩
  simp [Store.opened, Store.credentialGet, sampleSource]

/-! ## What is held -/

/-- What is done with uploads: `stage`, `sweep_pending` at an instant, `cancel` and `confirm`. -/
inductive Handling (File : Type)
  | stage (w : World) (bytes : File)
  | sweepPending (instant : Nat)
  | cancel (uploadId : Text)
  | confirm (w : World) (faults : Faults) (uploadId passphrase : Text) (confirmHost : Option Text)

section Held

variable {File Json : Type} (p : Packing File Json)

/-- The proxy after an import is staged, dropped or confirmed. -/
def Handling.after (s : Site) : Handling File → Site
  | stage w bytes => (WebAccess.stage p w s bytes).2
  | sweepPending instant => { s with uploads := s.uploads.filter fun u => decide (instant - u.2.uploaded < pendingTtl) }
  | cancel uploadId => { s with uploads := s.uploads.filter fun u => u.1 != uploadId }
  | confirm w faults uploadId passphrase confirmHost => (WebAccess.confirm w faults s uploadId passphrase confirmHost).2

/-- Uploads are not too many, each under a name of its own, and each is what a whole archive was read as when it was
staged. -/
structure Held (xs : List (Handling File)) (held : List (Text × PendingImport)) : Prop where
  few : held.length ≤ maxPending
  apart : (held.map Prod.fst).Nodup
  staged : ∀ u ∈ held, ∃ w bytes manifest, .stage w bytes ∈ xs ∧ readZip p bytes = .ok (manifest, u.2.blob) ∧
    u.1 = w.token ∧ u.2.uploaded = w.instant

variable {p} {xs : List (Handling File)} {x : Handling File} {held held' : List (Text × PendingImport)} {s : Site}

theorem Held.sublist (h : Held p xs held) (hsub : held'.Sublist held) : Held p (xs ++ [x]) held' := by
  refine ⟨hsub.length_le.trans h.few, h.apart.sublist (hsub.map _), fun u hu => ?_⟩
  obtain ⟨w, bytes, manifest, hmem, hread⟩ := h.staged u (hsub.subset hu)
  exact ⟨w, bytes, manifest, List.mem_append_left _ hmem, hread⟩

theorem uploads_confirm (w : World) (faults : Faults) (uploadId passphrase : Text) (confirmHost : Option Text) :
    (confirm w faults s uploadId passphrase confirmHost).2.uploads.Sublist s.uploads := by
  have happly : ∀ blob, (apply w faults s blob passphrase).2.uploads = s.uploads := by
    intro blob
    simp only [apply, swapIn]
    repeat' split
    all_goals rfl
  unfold confirm
  split
  · exact .refl _
  · rename_i blob _
    rw [← happly blob]
    rcases apply w faults s blob passphrase with ⟨_ | counts, s'⟩
    · exact .refl _
    · exact List.filter_sublist

theorem Held.after (h : Held p xs s.uploads) (x : Handling File) : Held p (xs ++ [x]) (x.after p s).uploads := by
  cases x with
  | stage w bytes =>
    simp only [Handling.after, stage]
    split
    · exact h.sublist (.refl _)
    · rename_i manifest blob hread
      let kept := s.uploads.filter fun u => decide (w.instant - u.2.uploaded < pendingTtl)
      have hrest : Held p (xs ++ [.stage w bytes]) ((makeRoom kept.length kept).filter fun u => u.1 != w.token) :=
        h.sublist (List.filter_sublist.trans ((makeRoom_sublist ..).trans List.filter_sublist))
      -- the loop has made room for one
      have hroom := lt_of_le_of_lt (List.length_filter_le (fun u => u.1 != w.token) _) (length_makeRoom _ kept le_rfl)
      refine ⟨Nat.succ_le_of_lt hroom, List.nodup_cons.2 ⟨by simp, hrest.apart⟩, fun u hu => ?_⟩
      rcases List.mem_cons.1 hu with rfl | hu
      · exact ⟨w, bytes, manifest, by simp, hread, rfl, rfl⟩
      · exact hrest.staged u hu
  | sweepPending | cancel => exact h.sublist List.filter_sublist
  | confirm => exact h.sublist (uploads_confirm ..)

/-- In whatever order archives are staged, swept, cancelled and confirmed, by a proxy that starts with none. -/
theorem held_of_handled (h : s.uploads = []) (xs : List (Handling File)) :
    Held p xs (xs.foldl (Handling.after p) s).uploads := by
  induction xs using List.reverseRecOn with
  | nil =>
    rw [List.foldl_nil, h]
    exact ⟨Nat.zero_le _, .nil, fun _ hu => absurd hu List.not_mem_nil⟩
  | append_singleton xs x ih =>
    rw [List.foldl_append]
    exact ih.after x

/-- One upload is cancelled, and of three others the first has given way. -/
theorem held_of_handled_four : sampleTarget.uploads = [] ∧ ∃ xs : List (Handling (Manifest × Archive)),
    Held samplePacking xs (xs.foldl (Handling.after samplePacking) sampleTarget).uploads ∧
      (xs.foldl (Handling.after samplePacking) sampleTarget).uploads.map (·.2.uploaded) = [3, 2] := by
  let bytes := (package samplePacking {} [] ['p'] {} ⟨0, 0, 0, 0⟩).bytes
  exact ⟨rfl, .stage {} bytes :: .cancel [] :: [1, 2, 3].map fun instant =>
    .stage { token := List.replicate instant 'a', instant } bytes, held_of_handled rfl _, by decide +kernel⟩

end Held

end WebAccess
