/-
What each request may do. A footprint is the list of the kinds of calls a request makes, whatever
it is answered, besides those that change nothing. The footprints of the routes are read off their
handlers once; what follows from a request's leaving something alone is then a fact about its
footprint.
-/
import WebAccess.Serve.Proxy

namespace WebAccess

open Codec Wire Process Transition

/-- The calls of these kinds, and those that change nothing. -/
def Call.among (tags : List Tag) (c : Call) : Prop := (Tag.look :: tags).contains c.tag = true

/-- The program makes only calls of these kinds, and such that change nothing. -/
def Within {α : Type} (tags : List Tag) (p : Prog Api α) : Prop := p.Makes (Call.among tags)

section Rules

variable {α β : Type} {tags tags' : List Tag}

theorem within_pure {a : α} : Within tags (pure a : Prog Api α) := trivial

variable {c : Call}

theorem within_ask {f : c.Answer → Prog Api α} (hc : (Tag.look :: tags).contains c.tag = true)
    (h : ∀ a, Within tags (f a)) : Within tags (ask c >>= f) := makes_call hc h

theorem within_ask_last (hc : (Tag.look :: tags).contains c.tag = true) : Within tags (ask c) :=
  ⟨hc, fun _ => trivial⟩

theorem Within.bind {p : Prog Api α} {f : α → Prog Api β} (hp : Within tags p) (hf : ∀ a, Within tags (f a)) :
    Within tags (p >>= f) := Prog.Makes.bind hp hf

theorem Call.among.mono (hc : c.among tags) (h : tags ⊆ tags') : c.among tags' := by
  rw [Call.among, List.contains_iff_mem, List.mem_cons] at hc ⊢
  exact hc.imp_right fun hmem => h hmem

theorem Within.mono {p : Prog Api α} (hp : Within tags p) (h : tags ⊆ tags') : Within tags' p :=
  Prog.Makes.mono (fun _ hc => hc.mono h) hp

theorem within_holding {h : Hold} {p : Prog Api α} (hp : Within tags p) : Within (.gate :: tags) (holding h p) :=
  within_ask rfl fun _ => (hp.mono (by simp)).bind fun _ => within_ask rfl fun _ => within_pure

end Rules

variable {α : Type} {tags : List Tag} {tokenHash : Bytes} {user admin : User} {server target : Server}
  {account : Account} {id source serverId userId incarnation : Int} {generation added removed liveId database : Nat}
  {username targetId actor action detail sid hash random passphrase new fileName addr : Text}
  {freeze copied froze wanted : Bool} {confirmHost : Option Text} {installed : Except Text Unit}
  {upload : Option Archive} {key : Key} {fate : Fate} {c : Copied} {form : SaveForm} {found : List (User × Lookup)}
  {lookupEach : LookupEach}

/-! ## Who is asking -/

theorem within_resolve : Within tags (resolve userId targetId) := by
  unfold resolve
  split
  · exact within_pure
  · refine within_ask rfl fun found => ?_
    cases found with
    | none => exact within_pure
    | some server => exact within_ask rfl fun assigned => by cases assigned <;> exact within_pure

theorem within_sessionOf : Within tags (sessionOf tokenHash) :=
  within_ask rfl fun found => by cases found <;> exact within_pure

theorem within_withCurrentUser {handler : User → Prog Api (ApiResult α)} (h : ∀ u, Within tags (handler u)) :
    Within tags (withCurrentUser tokenHash handler) :=
  within_sessionOf.bind fun found => match found with
    | .error _ => within_pure
    | .ok u => h u

theorem within_withAdmin {handler : User → Prog Api (ApiResult α)} (h : ∀ u, Within tags (handler u)) :
    Within tags (withAdmin tokenHash handler) :=
  within_sessionOf.bind fun found => match found with
    | .error _ => within_pure
    | .ok u => within_ask rfl fun isAdmin => match isAdmin with
      | true => h u
      | false => within_pure

theorem within_withAdminToken {handler : Prog Api (ApiResult α)} (h : Within tags handler) :
    Within tags (withAdminToken tokenHash handler) :=
  within_ask rfl fun isAdmin => match isAdmin with
    | true => h
    | false => within_pure

theorem within_notFrozen {change : Prog Api (ApiResult α)} (h : Within tags change) : Within tags (notFrozen change) :=
  within_ask rfl fun frozen => match frozen with
    | true => within_pure
    | false => h

theorem within_withEditor {change : User → Prog Api (ApiResult α)} (h : ∀ u, Within tags (change u)) :
    Within tags (withEditor tokenHash change) :=
  within_withAdmin fun u => within_notFrozen (h u)

theorem within_changeUser {change : User → User → Prog Api (ApiResult Unit)}
    (h : ∀ admin u, Within tags (change admin u)) : Within tags (changeUser tokenHash id change) :=
  within_withEditor fun admin => within_ask rfl fun found => match found with
    | none => within_pure
    | some u => h admin u

theorem within_audited (h : (Tag.look :: tags).contains .note = true) : Within tags (audited actor action detail) :=
  within_ask h fun _ => within_pure

theorem within_editing {e : Edit} {line : Edited → Text × Text} : Within [.edit, .note] (editing admin e line) :=
  within_ask rfl fun done => match done with
    | .error _ => within_pure
    | .ok _ => within_audited rfl

/-! ## The vault -/

namespace Vault

variable {m : Memory}

theorem within_withKey {f : Key → Prog Api (Except VaultError α)} (hm : Within tags m.key)
    (h : ∀ key, Within tags (f key)) : Within tags (withKey m f) :=
  hm.bind fun held => match held with
    | none => within_pure
    | some key => h key

theorem within_service : Within tags Memory.service.key := within_ask_last rfl

theorem within_directoryPassword : Within tags (directoryPassword .service) := by
  refine within_ask rfl fun value => ?_
  cases value with
  | none => exact within_pure
  | some value =>
    refine within_withKey within_service fun key => ?_
    split <;> exact within_pure

theorem within_setDirectoryPassword (hm : Within [.secret] m.key) (password : Text) :
    Within [.secret] (setDirectoryPassword m password) :=
  within_withKey hm fun _ => within_ask rfl fun _ => within_pure

theorem within_putRecovery : Within [.secret] (putRecovery key new) :=
  within_ask rfl fun _ => within_pure

theorem within_setRecovery (hm : Within [.secret] m.key) (current : Option Text) (new : Text) :
    Within [.secret] (setRecovery m current new) := by
  refine within_withKey hm fun key => ?_
  split
  · exact within_pure
  refine within_ask rfl fun wrapped => ?_
  cases wrapped with
  | none => exact within_putRecovery
  | some wrapped =>
    simp only []
    split
    · exact within_pure
    split
    · exact within_pure
    split
    · exact within_putRecovery
    · exact within_pure

theorem within_replaceRecovery (hm : Within [.secret] m.key) : Within [.secret] (replaceRecovery m new) := by
  refine within_withKey hm fun key => ?_
  split
  · exact within_pure
  · exact within_putRecovery

theorem within_reset (hm : ∀ key, Within [.secret, .vault] (m.install key)) : Within [.secret, .vault] (reset m) :=
  within_ask rfl fun key => within_ask rfl fun _ => within_ask rfl fun _ => (hm key).bind fun _ => within_pure

theorem within_adopt : Within [.secret] (adopt passphrase) := by
  refine within_ask rfl fun wrapped => ?_
  split
  · exact within_pure
  · exact within_ask rfl fun _ => within_ask rfl fun _ => within_pure

theorem within_load : Within [.secret] load := by
  refine within_ask rfl fun protector => within_ask rfl fun wrapped => ?_
  cases wrapped with
  | some wrapped => exact within_pure
  | none =>
    refine within_ask rfl fun recovery => ?_
    cases recovery with
    | some _ => exact within_pure
    | none => exact within_ask rfl fun key => within_ask rfl fun _ => within_pure

end Vault

/-! ## Handlers -/

theorem within_openSaved : Within tags (openSaved user server) := by
  refine within_ask rfl fun stored => ?_
  split
  · refine within_ask rfl fun unlocked => ?_
    split
    · exact within_pure
    · refine within_ask rfl fun key => ?_
      split <;> exact within_pure
  · exact within_pure

theorem within_wsUpgrade : Within [.register] (wsUpgrade tokenHash) :=
  within_withCurrentUser fun _ => within_ask rfl fun _ => within_pure

theorem within_connect : Within [.ticket] (connect tokenHash serverId) :=
  within_withCurrentUser fun _ => within_resolve.bind fun r => match r with
    | .error _ => within_pure
    | .ok _ => within_ask rfl fun _ => within_openSaved.bind fun _ => within_pure

theorem within_savingBlocked : Within tags savingBlocked := by
  refine within_ask rfl fun frozen => ?_
  split
  · exact within_pure
  refine within_ask rfl fun recovery => ?_
  split
  · exact within_pure
  refine within_ask rfl fun key => ?_
  split <;> exact within_pure

theorem within_sealAndPut : Within [.credential, .note] (sealAndPut user server sid form) := by
  refine within_ask rfl fun key => ?_
  split
  · exact within_pure
  refine within_ask rfl fun put => ?_
  split
  · exact within_pure
  · exact within_audited rfl

theorem within_saveCredential : Within [.credential, .note] (saveCredential tokenHash serverId form) := by
  refine within_withCurrentUser fun user => within_savingBlocked.bind fun blocked => ?_
  split
  · exact within_pure
  refine within_resolve.bind fun found => ?_
  split
  · exact within_pure
  split
  · split
    · exact within_pure
    · exact within_sealAndPut
  · exact within_pure

theorem within_forgetCredential : Within [.credential, .note] (forgetCredential tokenHash serverId) := by
  refine within_withCurrentUser fun user => within_ask rfl fun frozen => ?_
  split
  · exact within_pure
  refine within_resolve.bind fun found => ?_
  split
  · exact within_pure
  refine within_ask rfl fun deleted => ?_
  split
  · exact within_audited rfl
  · exact within_pure

/-! ### Taking access away -/

/-- The kinds of calls that take access away. -/
abbrev revoking : List Tag := [.revoke, .sweep, .note]

theorem within_logout : Within revoking (logout tokenHash) :=
  within_withCurrentUser fun _ => within_ask rfl fun _ => within_ask rfl fun _ =>
    within_audited rfl

theorem within_removeUser : Within revoking (removeUser tokenHash id) :=
  within_changeUser fun _ _ => within_ask rfl fun deleted => match deleted with
    | .error _ => within_pure
    | .ok () => within_ask rfl fun _ => within_audited rfl

theorem within_clearSid : Within revoking (clearSid tokenHash id) :=
  within_changeUser fun _ _ => within_ask rfl fun cleared => match cleared with
    | .error _ => within_pure
    | .ok () => within_ask rfl fun _ => within_audited rfl

theorem within_endGone (userId : Int) : ∀ gone : List Int, Within revoking (endGone userId gone)
  | [] => within_pure
  | _ :: gone => within_ask rfl fun _ => within_endGone userId gone

theorem within_auditServers : Within [.note] (auditServers admin user added removed) := by
  unfold auditServers
  split
  · exact within_audited rfl
  · exact within_pure

theorem within_setUserServers {serverIds : List Int} : Within revoking (setUserServers tokenHash id serverIds) :=
  within_changeUser fun _ _ => within_ask rfl fun _ => within_ask rfl fun done => match done with
    | .error _ => within_pure
    | .ok _ => (within_endGone id _).bind fun _ => within_auditServers.mono (by decide)

theorem within_removeServer : Within revoking (removeServer tokenHash id) :=
  within_withEditor fun _ => within_ask rfl fun found => match found with
    | none => within_pure
    | some _ => within_ask rfl fun deleted => match deleted with
      | .error _ => within_pure
      | .ok () => within_ask rfl fun _ => within_audited rfl

theorem within_connectedUsers (seen : List Int) : ∀ ids : List Int, Within tags (connectedUsers seen ids)
  | [] => within_pure
  | id :: ids => by
    unfold connectedUsers
    split
    · exact within_connectedUsers seen ids
    · exact within_ask rfl fun _ => (within_connectedUsers seen ids).bind fun _ => within_pure

theorem within_usersToCheck : Within tags usersToCheck :=
  within_ask rfl fun _ => within_ask rfl fun _ => (within_connectedUsers _ _).bind fun _ => within_pure

theorem within_passReads : Within tags passReads := by
  refine Vault.within_directoryPassword.bind fun password => ?_
  split
  · exact within_pure
  · exact within_pure
  · exact within_ask rfl fun _ => within_usersToCheck.bind fun _ => within_pure

theorem within_applyLookups : ∀ (found : List (User × Lookup)) (pass : Pass),
    Within [.revoke, .sweep] (applyLookups pass found)
  | [], _ => within_pure
  | (_, _, .error ()) :: rest, _ => within_applyLookups rest _
  | (checked, _, .ok account) :: rest, pass => by
    refine within_ask rfl fun found => ?_
    split
    · exact within_applyLookups rest _
    split
    · exact within_ask rfl fun _ => within_ask rfl fun _ => within_applyLookups rest _
    · exact within_applyLookups rest _

theorem within_passWrites : Within [.revoke, .sweep] (passWrites generation found) := by
  refine within_ask rfl fun current => ?_
  split
  · exact (within_applyLookups _ _).bind fun _ => within_pure
  · exact within_pure

theorem within_revocationPass : Within [.gate, .revoke, .sweep] (revocationPass lookupEach) := by
  refine (within_holding within_passReads).bind fun read => ?_
  split
  · exact within_pure
  · exact within_pure
  split
  · exact within_pure
  split
  · exact within_pure
  · exact within_holding within_passWrites

/-! ### Edits and secrets -/

/-- The kinds of calls of an administrator's edit. -/
abbrev edits : List Tag := [.edit, .note]

theorem within_copyFrom : Within edits (copyFrom tokenHash id source) :=
  within_changeUser fun _ _ => within_ask rfl fun found => match found with
    | none => within_pure
    | some _ => within_editing

theorem within_putSettings {settings : Settings} : Within edits (putSettings tokenHash settings) := by
  refine within_withEditor fun admin => ?_
  split
  · exact within_pure
  · exact within_editing

theorem within_withForm (form : ApiResult α) {change : User → α → Prog Api (ApiResult Unit)}
    (h : ∀ admin a, Within tags (change admin a)) : Within tags (withForm tokenHash form change) :=
  within_withEditor fun admin => match form with
    | .error _ => within_pure
    | .ok a => h admin a

theorem within_importServers {rows : ApiResult (List ImportRow)} : Within edits (importServers tokenHash rows) := by
  refine within_withForm rows fun admin rows => ?_
  split
  · exact within_pure
  · exact within_editing

theorem within_setRecovery (tokenHash : Bytes) (current : Option Text) (new : Text) :
    Within [.secret, .note] (setRecovery tokenHash current new) :=
  within_withEditor fun _ => within_ask rfl fun _ =>
    ((Vault.within_setRecovery Vault.within_service _ _).mono (by decide)).bind fun done => match done with
      | .error _ => within_pure
      | .ok () => within_audited rfl

theorem within_unlock : Within [.secret, .vault, .note] (unlock tokenHash passphrase) :=
  within_withAdmin fun _ => (Vault.within_adopt.mono (by decide)).bind fun done => match done with
    | .error _ => within_pure
    | .ok _ => within_ask rfl fun _ => within_audited rfl

theorem within_resetCredentialStore {confirmHost : Text} :
    Within [.secret, .vault, .note] (resetCredentialStore tokenHash confirmHost) := by
  refine within_withEditor fun _ => within_ask rfl fun hostName => ?_
  split
  · refine ((Vault.within_reset fun _ => within_ask_last rfl).mono (by decide)).bind fun _ => ?_
    exact within_audited rfl
  · exact within_pure

/-! ### Signing in -/

abbrev signing : List Tag := [.user, .session]

theorem within_startSession : Within signing (startSession user tokenHash) := by
  refine within_ask rfl fun _ => within_ask rfl fun _ => within_ask rfl fun created => ?_
  split <;> exact within_pure

theorem within_sidMismatch : Within [.user] (sidMismatch user) :=
  within_ask rfl fun _ => within_pure

theorem within_bindAccount : Within [.user] (bindAccount account user) := by
  unfold bindAccount
  split
  · exact within_pure
  split
  · exact within_sidMismatch
  refine within_ask rfl fun recorded => ?_
  split
  · exact within_pure
  refine within_ask rfl fun current => ?_
  simp only []
  split
  · exact within_sidMismatch
  · exact within_pure

theorem within_finishDirectory : Within [.user] (finishDirectory account) := by
  refine within_ask rfl fun named => ?_
  split
  · exact within_bindAccount
  refine within_ask rfl fun bound => ?_
  split
  · refine within_ask rfl fun renamed => ?_
    split
    · refine within_ask rfl fun current => ?_
      split
      · exact within_bindAccount
      · exact within_pure
    · exact within_pure
  · refine within_ask rfl fun created => ?_
    split
    · exact within_bindAccount
    · exact within_pure

theorem within_finishLocal : Within [.user] (finishLocal userId incarnation hash random) := by
  refine within_ask rfl fun found => within_ask rfl fun current => ?_
  split
  · exact within_pure
  split
  · refine within_ask rfl fun recorded => ?_
    split <;> exact within_pure
  · exact within_pure

theorem within_finish {c : Checked} : Within [.user] (finish random c) :=
  match c with
  | .refused => within_pure
  | .isLocal .. => within_finishLocal
  | .directory _ => within_finishDirectory

theorem within_signedIn {last : Prog Api (ApiResult Unit)} (hlast : Within signing last) :
    Within signing (signedIn user tokenHash last) :=
  within_startSession.bind fun started => match started with
    | .error _ => within_pure
    | .ok () => within_ask rfl fun _ => hlast

theorem within_readBack : Within tags (readBack user) :=
  within_ask rfl fun found => by cases found <;> exact within_pure

theorem within_loginWrites {finished : Prog Api (ApiResult User)} {last : User → Prog Api (ApiResult Unit)}
    (hfinished : Within [.user] finished) (hlast : ∀ u, Within signing (last u)) :
    Within signing (loginWrites generation finished tokenHash last) := by
  refine within_ask rfl fun current => ?_
  split
  · refine (hfinished.mono (by decide)).bind fun done => ?_
    split
    · exact within_pure
    · exact within_signedIn (hlast _)
  · exact within_pure

theorem within_loginReads : Within tags (loginReads username) := by
  refine within_ask rfl fun found => ?_
  split
  · exact within_ask rfl fun _ => within_ask rfl fun _ => within_pure
  · exact within_ask rfl fun _ => within_pure

theorem within_login {verify : Text → Bool} {account : Option Account} :
    Within (.gate :: signing) (login username verify account tokenHash random) :=
  (within_holding within_loginReads).bind fun _ =>
    within_holding (within_loginWrites within_finish fun _ => within_readBack)

theorem within_ssoSignIn : Within (.gate :: signing) (ssoSignIn account tokenHash) := by
  have hreads : Within signing ssoReads :=
    within_ask rfl fun _ => Vault.within_directoryPassword.bind fun _ => within_pure
  refine (within_holding hreads).bind fun read => ?_
  split
  · exact within_pure
  · exact within_pure
  split
  · exact within_pure
  · exact within_holding (within_loginWrites within_finishDirectory fun _ => within_pure)

/-! ### Work that leaves the gate -/

theorem within_adminReads {read : Prog Api α} (h : Within tags read) : Within tags (adminReads tokenHash read) :=
  within_withEditor fun _ => h.bind fun _ => within_ask rfl fun _ => within_pure

theorem within_adminWrites {write : User → Prog Api (ApiResult Unit)} (h : ∀ u, Within tags (write u)) :
    Within tags (adminWrites tokenHash generation write) := by
  refine within_ask rfl fun current => ?_
  split
  · exact within_withEditor h
  · exact within_pure

theorem within_addUser {lookup : Except Unit (Option Account)} :
    Within [.gate, .user, .note] (addUser tokenHash username lookup) := by
  have hlookup : Within [.user, .note] lookupPassword :=
    Vault.within_directoryPassword.bind fun password => by cases password <;> exact within_pure
  refine within_withAdminToken ((within_holding (within_adminReads hlookup)).bind fun read => ?_)
  split
  · exact within_pure
  split
  · exact within_pure
  refine within_holding (within_adminWrites fun _ => within_ask rfl fun created => ?_)
  split
  · exact within_pure
  · exact within_audited rfl

theorem within_setDirectoryPassword (tokenHash : Bytes) (password : Text) (probe : ApiResult Unit) :
    Within [.gate, .secret, .note] (setDirectoryPassword tokenHash password probe) := by
  refine within_withAdminToken ?_
  split
  · exact within_pure
  refine (within_holding (within_adminReads within_pure)).bind fun read => ?_
  split
  · exact within_pure
  split
  · exact within_pure
  refine within_holding (within_adminWrites fun _ => ?_)
  refine ((Vault.within_setDirectoryPassword Vault.within_service password).mono (by decide)).bind fun done => ?_
  split
  · exact within_pure
  · exact within_audited rfl

/-! ### Migration -/

theorem within_copyFor : Within tags (copyFor admin passphrase copied froze) := by
  have hsnapshot : Within tags (snapshotOf passphrase copied) := by
    refine within_ask rfl fun db => ?_
    split
    · split <;> exact within_pure
    · exact within_pure
  refine hsnapshot.bind fun db => ?_
  split
  · exact within_pure
  · exact within_ask rfl fun _ => within_pure

theorem within_lift : Within [.flag] lift := within_ask rfl fun _ => within_ask_last rfl

theorem within_freezeAndCopy : Within [.flag] (freezeAndCopy tokenHash passphrase fate) := by
  unfold freezeAndCopy
  split
  · refine within_withAdmin fun admin => within_ask rfl fun frozen => ?_
    split
    · exact within_copyFor
    refine within_ask rfl fun _ => within_ask rfl fun _ => within_copyFor.bind fun copied => ?_
    split
    · exact within_pure
    · exact within_lift.bind fun _ => within_pure
  · exact within_pure

theorem within_plainCopy : Within tags (plainCopy tokenHash passphrase fate) := by
  unfold plainCopy
  split
  · exact within_withAdmin fun _ => within_copyFor
  · exact within_pure

abbrev exports : List Tag := [.gate, .lock, .flag, .note]

theorem within_copyDatabase : Within exports (copyDatabase tokenHash passphrase freeze fate) := by
  unfold copyDatabase
  split
  · exact (within_holding within_freezeAndCopy).mono (by decide)
  · exact (within_holding within_plainCopy).mono (List.cons_subset_cons _ (List.nil_subset _))

theorem within_unfreezeIfCurrent : Within [.gate, .flag] (unfreezeIfCurrent generation) := by
  refine within_holding (within_ask rfl fun current => ?_)
  split
  · exact within_lift
  · exact within_pure

theorem within_abandon : Within exports (abandon c) := by
  unfold abandon
  split
  · exact (within_unfreezeIfCurrent.mono (by decide)).bind fun _ => within_ask_last rfl
  · exact within_ask_last rfl

theorem within_recordExport : Within [.gate, .note] (recordExport c freeze fileName fate) := by
  refine within_holding ?_
  split
  · refine within_ask rfl fun current => ?_
    split
    · exact within_ask rfl fun _ => within_pure
    · exact within_pure
  · exact within_pure

theorem within_handOver : Within exports (handOver c) := by
  have hpending : Within [.flag] (do
      let current ← ask .generation
      if current == c.generation then ask (.setFreezePending false) else pure ()) := by
    refine within_ask rfl fun current => ?_
    split
    · exact within_ask_last rfl
    · exact within_pure
  exact ((within_holding hpending).mono (by decide)).bind fun _ => within_ask_last rfl

theorem within_deliver : Within exports (deliver passphrase freeze fileName fate c) := by
  unfold deliver
  split
  · refine (within_recordExport.mono (by decide)).bind fun recorded => ?_
    split
    · split
      · split
        · exact within_handOver.bind fun _ => within_pure
        · exact within_ask rfl fun _ => within_pure
      · exact within_abandon.bind fun _ => within_pure
    · exact within_abandon.bind fun _ => within_pure
  · exact within_abandon.bind fun _ => within_pure

theorem within_exportDatabase : Within exports (exportDatabase tokenHash passphrase freeze fileName fate) := by
  refine within_withAdminToken (within_ask rfl fun recovery => ?_)
  split
  · exact within_pure
  refine within_ask rfl fun _ => within_copyDatabase.bind fun copied => ?_
  split
  · exact within_ask rfl fun _ => within_pure
  · exact within_deliver

theorem within_unfreeze : Within [.flag, .note] (unfreeze tokenHash) :=
  within_withAdmin fun _ => (within_lift.mono (by decide)).bind fun _ => within_audited rfl

abbrev importing : List Tag := [.gate, .swap, .vault, .sweep, .note]

theorem within_swap {db : Store} : Within [.swap, .vault, .sweep, .note] (swap key db) :=
  within_ask rfl fun _ => within_ask rfl fun _ => within_ask rfl fun _ => within_ask rfl fun _ =>
    within_ask rfl fun _ => within_pure

theorem within_applyImport {blob : Archive} :
    Within [.swap, .vault, .sweep, .note] (applyImport blob passphrase installed) := by
  unfold applyImport
  split
  · exact within_pure
  refine within_ask rfl fun protector => within_ask rfl fun token => ?_
  split
  · exact within_pure
  refine within_ask rfl fun _ => ?_
  split
  · exact within_pure
  · exact within_swap.bind fun _ => within_pure

theorem within_confirmImport :
    Within [.swap, .vault, .sweep, .note] (confirmImport upload passphrase confirmHost installed) := by
  unfold confirmImport
  split
  · exact within_pure
  refine within_ask rfl fun current => within_ask rfl fun hostName => ?_
  split
  · exact within_pure
  · exact within_applyImport

theorem within_importExclusive :
    Within importing (importExclusive tokenHash wanted upload passphrase confirmHost installed) := by
  refine within_withAdminToken (within_holding ?_)
  split
  · refine within_withAdmin fun _ => within_confirmImport.bind fun done => ?_
    split
    · exact within_pure
    · exact within_audited rfl
  · exact within_pure

theorem within_uploadImport {upload : ApiResult Text} : Within [.gate, .note] (uploadImport tokenHash upload) := by
  refine within_withAdminToken (within_holding (within_withAdmin fun _ => ?_))
  split
  · exact within_pure
  · exact within_ask rfl fun _ => within_audited rfl

/-! ### Connections and tools -/

theorem within_recordOpen : Within [.gate, .note] (recordOpen liveId user target addr) := by
  refine within_holding (within_ask rfl fun opened => within_ask rfl fun generation => ?_)
  split
  · exact within_ask rfl fun _ => within_pure
  · exact within_pure

theorem within_recordEnd {e : Ended} : Within [.gate, .ended] (recordEnd e) := by
  unfold recordEnd
  split
  · refine within_holding (within_ask rfl fun generation => ?_)
    split
    · exact within_ask rfl fun _ => within_pure
    · exact within_pure
  · exact within_pure

theorem within_auditEach (username : Text) : ∀ lines : List (Text × Text), Within [.notice, .note]
    (auditEach username lines)
  | [] => within_pure
  | _ :: lines => within_ask rfl fun _ => within_auditEach username lines

theorem within_report {server : Text} {r : Scan.Report} : Within [.notice, .note] (report user server database r) :=
  within_ask rfl fun _ => within_auditEach _ _

theorem within_consoleLine {done : Except VaultError α} : Within [.note] (consoleLine action detail done) :=
  match done with
  | .error _ => within_pure
  | .ok _ => within_ask_last rfl

theorem within_tool (tool : Tool) : Within [.secret, .user, .edit, .note] tool.program := by
  refine (Vault.within_load.mono (by decide)).bind fun key => ?_
  cases tool with
  | replaceRecovery new =>
    exact ((Vault.within_replaceRecovery within_pure).mono (by decide)).bind fun _ =>
      within_consoleLine.mono (by decide)
  | setRecovery current new =>
    exact within_ask rfl fun _ =>
      ((Vault.within_setRecovery within_pure _ new).mono (by decide)).bind fun _ =>
      within_consoleLine.mono (by decide)
  | setDirectory password =>
    exact ((Vault.within_setDirectoryPassword within_pure password).mono (by decide)).bind fun _ =>
      within_consoleLine.mono (by decide)
  | unlock passphrase =>
    simp only []
    split
    · exact within_pure
    · exact (Vault.within_adopt.mono (by decide)).bind fun _ =>
      within_consoleLine.mono (by decide)
  | resetCredentials confirmHost =>
    refine within_ask rfl fun _ => within_ask rfl fun hostName => ?_
    split
    · -- what a tool puts in its memory is no call
      exact within_ask rfl fun _ => within_ask rfl fun _ => within_ask rfl fun _ => within_ask_last rfl
    · exact within_pure
  | localAccount =>
    refine within_ask rfl fun set => ?_
    cases set with
    | error e => exact within_pure
    | ok id =>
      simp only []
      split
      · refine within_ask rfl fun edited => ?_
        cases edited with
        | error e => exact within_pure
        | ok _ => exact within_ask_last rfl
      · exact within_ask_last rfl

/-! ## Requests -/

namespace Route

def footprint : Route → List Tag
  | page .. | myNotices .. | cancelImport .. => []
  | wsUpgrade _ => [.register]
  | connect .. => [.ticket]
  | saveCredential .. | forgetCredential .. => [.credential, .note]
  | logout _ | removeUser .. | setUserServers .. | clearSid .. | removeServer .. => revoking
  | updateUser .. | copyFrom .. | addServer .. | importServers .. | updateServer .. | addGroup .. | orderGroups ..
  | renameGroup .. | removeGroup .. | putSettings .. => edits
  | setRecovery .. => [.secret, .note]
  | unlock .. | resetCredentialStore .. => [.secret, .vault, .note]
  | unfreeze _ => [.flag, .note]
  | login .. | ssoSignIn .. => .gate :: signing
  | addUser .. => [.gate, .user, .note]
  | setDirectoryPassword .. => [.gate, .secret, .note]
  | exportDatabase .. => exports
  | uploadImport .. => [.gate, .note]
  | confirmImport .. => importing

theorem within_plain {p : Prog Api (ApiResult Unit)} (h : Within tags p) :
    Within tags (plain p) := h.bind fun _ => within_pure

theorem within_readAll : ∀ reads : List Call, Within tags (readAll reads)
  | [] => within_pure
  | c :: reads => by
    unfold readAll
    split
    · rename_i hc
      exact within_ask (by simp [hc]) fun _ => within_readAll reads
    · exact within_readAll reads

theorem within_handler (r : Route) : Within r.footprint r.handler :=
  match r with
  | page .. => (within_readAll _).bind fun _ => within_pure
  | wsUpgrade _ => within_plain within_wsUpgrade
  | myNotices .. => within_plain (within_withCurrentUser fun _ => within_ask rfl fun _ => within_pure)
  | connect .. => within_connect.bind fun _ => within_pure
  | saveCredential .. => within_plain within_saveCredential
  | forgetCredential .. => within_plain within_forgetCredential
  | logout _ => within_plain within_logout
  | updateUser .. => within_plain (within_changeUser fun _ _ => within_editing)
  | removeUser .. => within_plain within_removeUser
  | setUserServers .. => within_plain within_setUserServers
  | copyFrom .. => within_plain within_copyFrom
  | clearSid .. => within_plain within_clearSid
  | addServer _ fields _ => within_plain (within_withForm fields fun _ _ => within_editing)
  | importServers .. => within_plain within_importServers
  | updateServer _ _ fields _ => within_plain (within_withForm fields fun _ _ => within_editing)
  | removeServer .. => within_plain within_removeServer
  | addGroup _ name => within_plain (within_withForm name fun _ _ => within_editing)
  | orderGroups .. => within_plain (within_withEditor fun _ => within_editing)
  | renameGroup _ _ name => within_plain (within_withForm name fun _ _ => within_editing)
  | removeGroup .. => within_plain (within_withEditor fun _ => within_editing)
  | putSettings .. => within_plain within_putSettings
  | setRecovery .. => within_plain (within_setRecovery _ _ _)
  | unlock .. => within_plain within_unlock
  | resetCredentialStore .. => within_plain within_resetCredentialStore
  | unfreeze _ => within_plain within_unfreeze
  | cancelImport .. => within_plain (within_withAdminToken (within_withAdmin fun _ => within_pure))
  | login .. => within_plain within_login
  | ssoSignIn .. => within_plain within_ssoSignIn
  | addUser .. => within_plain within_addUser
  | setDirectoryPassword .. => within_plain (within_setDirectoryPassword _ _ _)
  | exportDatabase .. => within_exportDatabase.bind fun _ => within_pure
  | uploadImport .. => within_plain within_uploadImport
  | confirmImport .. => within_plain within_importExclusive

end Route

theorem within_stamped {p : Prog Api α} (h : Within tags p) : Within tags (stamped p) :=
  h.bind fun _ => within_ask rfl fun _ => within_pure

variable {method : Method} {path : Text} {sent : Option Text}

theorem within_checkInstance {p : Prog Api (ApiResult α)} (h : Within tags p) :
    Within tags (checkInstance method path sent p) := by
  unfold checkInstance
  split
  · refine within_ask rfl fun current => ?_
    simp only []
    split
    · exact within_pure
    · exact h
  · exact h

theorem within_gateRequests {p : Prog Api (ApiResult α)} (h : Within tags p) :
    Within (.gate :: tags) (gateRequests method path sent p) := by
  unfold gateRequests
  split
  · exact (within_stamped h).mono (by simp)
  · exact within_holding (within_stamped (within_checkInstance h))

namespace Request

def footprint : Request → List Tag
  | http r _ => .gate :: r.footprint
  | revocationPass _ => [.gate, .revoke, .sweep]
  | recordOpen .. => [.gate, .note]
  | recordEnd _ => [.gate, .ended]
  | report .. => [.notice, .note]
  | tool _ => [.secret, .user, .edit, .note]

theorem within_program (r : Request) : Within r.footprint r.program :=
  match r with
  | http r _ => within_gateRequests r.within_handler
  | revocationPass _ => Route.within_plain within_revocationPass
  | recordOpen .. => within_recordOpen.bind fun recorded => by cases recorded <;> exact within_pure
  | recordEnd e => within_recordEnd.bind fun _ => within_pure
  | report .. => Route.within_plain within_report
  | tool t => (within_tool t).bind fun _ => within_pure

end Request

def Running.Within (t : Running) : Prop := WebAccess.Within t.request.footprint t.task.prog

end WebAccess
