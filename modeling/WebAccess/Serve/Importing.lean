/-
An import from the confirmation to the swap (`confirm`, `apply` and `prune_backups` of `migrate.rs`,
`replace_with` of `store.rs`), with every point at which it can fail and with the files it leaves in the data
directory. Nothing else runs: an import holds the gate alone. What fails is decided outside, and is in `Faults`.

An import is all or nothing but for its backup. When the file is not put in place the copy is deleted again,
and that may fail; when it is, the older backups are pruned, by the times in their names, and where the clock
has been set back the newest copy does not have the latest name.
-/
import WebAccess.Lib.Digits
import WebAccess.Serve.Migrate
import Mathlib.Data.Char
import Mathlib.Data.List.Lex

namespace WebAccess

open Codec Digits Wire Process

/-! ## The data directory -/

/-- The database files beside the one that is served, by name. -/
@[ext]
structure Directory where
  files : List (Text × Store)
  distinct : (files.map Prod.fst).Nodup

namespace Directory

theorem distinct_nil : (([] : List (Text × Store)).map Prod.fst).Nodup := .nil

def names (d : Directory) : List Text := d.files.map Prod.fst

/-- A file is written that was not there. -/
def add (d : Directory) (name : Text) (db : Store) (h : name ∉ d.names) : Directory where
  files := d.files ++ [(name, db)]
  distinct := by
    rw [List.map_append, List.nodup_append]
    refine ⟨d.distinct, List.nodup_singleton _, ?_⟩
    rintro a ha b hb rfl
    obtain rfl : a = name := List.mem_singleton.1 hb
    exact h ha

/-- The files with a name of a list are deleted. -/
def removeAll (d : Directory) (gone : List Text) : Directory where
  files := d.files.filter fun f => f.1 ∉ gone
  distinct := d.distinct.sublist (List.filter_sublist.map Prod.fst)

end Directory

/-- `utc_stamp`: `20260923T231500Z` from Unix seconds -/
def utcStamp (secs : Int) : Text :=
  let (y, m, d, h, mi, s) := utcParts secs
  fixed 4 y.toNat ++ (fixed 2 m.toNat ++ (fixed 2 d.toNat ++ 'T' :: (fixed 2 h.toNat ++ (fixed 2 mi.toNat ++
    (fixed 2 s.toNat ++ ['Z'])))))

def backupName (now : Int) : Text := "backup-" ++ utcStamp now ++ ".db"

/-- What `prune_backups` takes for an import backup. -/
def isImportBackup (name : Text) : Bool := "backup-2".toList.isPrefixOf name && ".db".toList.isSuffixOf name

def keepBackups : Nat := 5

/-! ## What can fail -/

/-- What an import meets outside: each step that may fail says with what, and nothing when it works. -/
structure Faults where
  /-- reading the counts of the database in use -/
  counts : Option Text := none
  /-- writing the staged file -/
  write : Option Text := none
  /-- opening the staged file, which brings an older schema forward -/
  migrate : Store → Except Text Store := .ok
  /-- `integrity_check` -/
  integrity : Option Text := none
  /-- wrapping the key for this host -/
  protect : Option VaultError := none
  /-- writing the wrap, the two flags and the instance, and reading the counts of the staged file -/
  wrap : Option Text := none
  frozen : Option Text := none
  pending : Option Text := none
  freshInstance : Option Text := none
  staged : Option Text := none
  /-- making the backup, and what is left of it under its name -/
  backup : Option (Text × Option Store) := none
  /-- the placeholder connection of `replace_with` -/
  placeholder : Option Text := none
  /-- the write-ahead log is still there: another process has the database open -/
  logLeft : Bool := false
  rename : Option Text := none
  /-- `read_dir` of the data directory works -/
  lists : Bool := true
  /-- `remove_file` of a backup works -/
  removes : Text → Bool := fun _ => true

/-- `MigrateError`, of an import -/
inductive MigrateError
  | expired
  | confirm (why : Text)
  | wrongPassphrase
  | noRecovery
  | integrity (why : Text)
  | vault (e : VaultError)
  | store (why : Text)
  | io (why : Text)

/-- `From<VaultError>` -/
def MigrateError.ofVault : VaultError → MigrateError
  | .wrongPassphrase => wrongPassphrase
  | .noRecovery => noRecovery
  | e => vault e

/-- A step that changes nothing here fails or not. -/
def attempt {ε : Type} (fault : Option ε) (wrap : ε → MigrateError) : Except MigrateError Unit :=
  match fault with
  | none => .ok ()
  | some e => .error (wrap e)

/-! ## An import -/

structure PendingImport where
  blob : Archive
  uploaded : Nat

/-- `PENDING_TTL`, in milliseconds -/
def pendingTtl : Nat := 30 * 60 * 1000

/-- The proxy, the uploads it holds and its data directory. -/
structure Site where
  app : App
  uploads : List (Text × PendingImport)
  dir : Directory

/-- The upload `confirm` finds under a name. -/
def heldUpload (w : World) (s : Site) (uploadId : Text) : Option PendingImport :=
  (s.uploads.lookup uploadId).filter fun p => decide (w.instant - p.uploaded < pendingTtl)

section Import

variable (w : World) (faults : Faults)

/-- `confirm` up to `apply`: the archive that is to be applied. -/
def confirmed (s : Site) (uploadId : Text) (confirmHost : Option Text) : Except MigrateError Archive :=
  match heldUpload w s uploadId with
  | none => .error .expired
  | some p => do
    attempt faults.counts .store
    let current := s.app.store.counts
    if holdsData current && !confirmHost.any (confirms · s.app.hostName) then
      .error (.confirm ("this proxy already holds " ++ number current.users ++ " user(s) and " ++
        number current.servers ++ " server(s); type its name, " ++ s.app.hostName ++ ", to replace them"))
    else .ok p.blob

/-- `apply` up to the backup: the staged database and its key. -/
def unpack (protector : Protector) (blob : Archive) (passphrase : Text) : Except MigrateError (Key × Store) := do
  let db ← match blob.openWith passphrase aadExport with
    | none => .error .wrongPassphrase
    | some db => .ok db
  attempt faults.write .io
  let db ← (faults.migrate db).mapError .store
  attempt faults.integrity .integrity
  let (key, db) ← (staged protector passphrase (w.token.take 32) db).mapError .ofVault
  attempt faults.protect .ofVault
  attempt faults.wrap .store
  attempt faults.frozen .store
  attempt faults.pending .store
  attempt faults.freshInstance .store
  attempt faults.staged .store
  pure (key, db)

/-- `snapshot_to`, of the backup: a file of that name must not be there. -/
def snapshotTo (dir : Directory) (name : Text) (db : Store) : Except MigrateError Unit × Directory :=
  if h : name ∈ dir.names then (.error (.store "output file already exists"), dir)
  else
    match faults.backup with
    | none => (.ok (), dir.add name db h)
    | some (why, none) => (.error (.store why), dir)
    | some (why, some left) => (.error (.store why), dir.add name left h)

/-- Whether `replace_with` puts the file in place. -/
def installed : Except Text Unit :=
  match faults.placeholder with
  | some why => .error why
  | none =>
    let why := if faults.logLeft then some "another process has the database open".toList else faults.rename
    match why with
    | none => .ok ()
    | some why =>
      .error ("the database file is in use and could not be replaced; stop other tools using it and " ++
        "retry (" ++ why ++ ")")

def pruneBackups (dir : Directory) (keep : Nat) : Directory :=
  if faults.lists then
    let backups := (dir.names.filter isImportBackup).mergeSort fun a b => decide (a ≤ b)
    dir.removeAll ((backups.take (backups.length - keep)).filter faults.removes)
  else dir

/-- What `apply` does to the proxy once the file is in place, which is what `swap` does. -/
def swapped (a : App) (key : Key) (db : Store) : App :=
  { a with
    store := db
    imports := a.imports + 1
    generation := a.generation + 1
    vault := some key
    tickets := a.tickets.clear
    live := (a.live.sweep .all).2 }

/-- `apply` from the backup on. -/
def swapIn (s : Site) (key : Key) (db : Store) : Except MigrateError Counts × Site :=
  let name := backupName w.now
  match snapshotTo faults s.dir name s.app.store with
  | (.error e, dir) => (.error e, { s with dir })
  | (.ok (), dir) =>
    match installed faults with
    | .error why => (.error (.store why), { s with dir := if faults.removes name then dir.removeAll [name] else dir })
    | .ok () => (.ok db.counts, { s with app := swapped s.app key db, dir := pruneBackups faults dir keepBackups })

def apply (s : Site) (blob : Archive) (passphrase : Text) : Except MigrateError Counts × Site :=
  match unpack w faults s.app.protector blob passphrase with
  | .error e => (.error e, s)
  | .ok (key, db) => swapIn w faults s key db

/-- `confirm`: the upload stays staged until an import succeeds. -/
def confirm (s : Site) (uploadId passphrase : Text) (confirmHost : Option Text) : Except MigrateError Counts × Site :=
  match confirmed w faults s uploadId confirmHost with
  | .error e => (.error e, s)
  | .ok blob =>
    match apply w faults s blob passphrase with
    | (.error e, s') => (.error e, s')
    | (.ok counts, s') => (.ok counts, { s' with uploads := s'.uploads.filter fun u => u.1 != uploadId })

end Import

/-! ## The files an import leaves -/

theorem mem_take_iff {α : Type} [LinearOrder α] {before : α → α → Bool} (hbefore : ∀ a b, before a b = true ↔ a < b)
    {l : List α} (h : l.Pairwise (· < ·)) (k : Nat) (x : α) :
    x ∈ l.take (l.length - k) ↔ x ∈ l ∧ k ≤ (l.filter (before x)).length := by
  induction l with
  | nil => simp
  | cons a l ih =>
    obtain ⟨hhead, htail⟩ := List.pairwise_cons.1 h
    by_cases hk : k ≤ l.length
    · rw [List.length_cons, Nat.succ_sub hk, List.take_succ_cons, List.mem_cons, List.mem_cons, ih htail]
      by_cases hx : x = a
      · subst hx
        have hafter : l.filter (before x) = l := List.filter_eq_self.2 fun y hy => (hbefore x y).2 (hhead y hy)
        have hself : ¬ before x x = true := by simp [hbefore]
        simp [List.filter_cons_of_neg hself, hafter, hk]
      · simp only [hx, false_or]
        refine and_congr_right fun hxl => ?_
        have hnot : ¬ before x a = true := fun hxa => lt_asymm (hhead x hxl) ((hbefore x a).1 hxa)
        rw [List.filter_cons_of_neg hnot]
    · have hnone : (a :: l).length - k = 0 := by rw [List.length_cons]; omega
      rw [hnone, List.take_zero]
      simp only [List.not_mem_nil, false_iff, not_and]
      intro hx hlong
      -- the name itself does not come after itself
      have hless : ((a :: l).filter (before x)).length < (a :: l).length :=
        List.length_filter_lt_length_iff_exists.2 ⟨x, hx, by simp [hbefore]⟩
      rw [List.length_cons] at hless
      omega

section Files

variable {dir : Directory} {name : Text}

theorem sorted_backups (dir : Directory) :
    ((dir.names.filter isImportBackup).mergeSort fun a b => decide (a ≤ b)).Pairwise (· < ·) := by
  have htrans : ∀ a b c : Text, decide (a ≤ b) = true → decide (b ≤ c) = true → decide (a ≤ c) = true := by
    simp only [decide_eq_true_eq]
    exact fun a b c => le_trans
  have htotal : ∀ a b : Text, (decide (a ≤ b) || decide (b ≤ a)) = true := by
    simp only [Bool.or_eq_true, decide_eq_true_eq]
    exact le_total
  have hle := List.pairwise_mergeSort htrans htotal (dir.names.filter isImportBackup)
  have hdistinct : ((dir.names.filter isImportBackup).mergeSort fun a b => decide (a ≤ b)).Nodup :=
    (List.mergeSort_perm _ _).nodup_iff.2 (dir.distinct.filter _)
  exact (hle.and hdistinct).imp fun h => lt_of_le_of_ne (of_decide_eq_true h.1) h.2

def isBefore (a b : Text) : Bool := decide (a < b)

theorem isBefore_iff (a b : Text) : isBefore a b = true ↔ a < b := decide_eq_true_iff

def laterBackups (dir : Directory) (name : Text) : List Text := (dir.names.filter isImportBackup).filter (isBefore name)

/-- A backup is pruned when as many as are kept have a later name, and it can be deleted. -/
def Pruned (faults : Faults) (dir : Directory) (name : Text) : Prop :=
  faults.lists = true ∧ faults.removes name = true ∧ isImportBackup name = true ∧
    keepBackups ≤ (laterBackups dir name).length

instance (faults : Faults) (dir : Directory) (name : Text) : Decidable (Pruned faults dir name) :=
  inferInstanceAs (Decidable (_ ∧ _ ∧ _ ∧ _))

theorem mem_pruneBackups {faults : Faults} {f : Text × Store} :
    f ∈ (pruneBackups faults dir keepBackups).files ↔ f ∈ dir.files ∧ ¬ Pruned faults dir f.1 := by
  unfold pruneBackups Pruned
  split
  · rename_i hlists
    have hperm : (((dir.names.filter isImportBackup).mergeSort fun a b =>
      decide (a ≤ b)).filter (isBefore f.1)).length =
        (laterBackups dir f.1).length := ((List.mergeSort_perm _ _).filter _).length_eq
    simp only [Directory.removeAll, List.mem_filter, decide_eq_true_eq, mem_take_iff isBefore_iff (sorted_backups dir),
      List.mem_mergeSort, hperm, hlists, true_and]
    refine and_congr_right fun hf => not_congr ?_
    have hname : f.1 ∈ dir.names := List.mem_map_of_mem hf
    simp only [hname, true_and]
    tauto
  · rename_i hlists
    simp [hlists]

variable {db : Store}

theorem laterBackups_add (h : name ∉ dir.names) : laterBackups (dir.add name db h) name = laterBackups dir name := by
  have hself : isBefore name name = false := decide_eq_false (lt_irrefl name)
  simp only [laterBackups, Directory.names, Directory.add, List.map_append, List.filter_append,
    List.map_cons, List.map_nil]
  by_cases hbackup : isImportBackup name = true
  · rw [List.filter_cons_of_pos hbackup, List.filter_nil, List.filter_cons_of_neg (by simp [hself]), List.filter_nil,
      List.append_nil]
  · rw [List.filter_cons_of_neg hbackup, List.filter_nil, List.filter_nil, List.append_nil]

theorem removeAll_add (h : name ∉ dir.names) : (dir.add name db h).removeAll [name] = dir := by
  ext1
  have hkept : (dir.files.filter fun f => decide (f.1 ∉ [name])) = dir.files := by
    refine List.filter_eq_self.2 fun f hf => decide_eq_true fun hname => h ?_
    rw [← List.mem_singleton.1 hname]
    exact List.mem_map_of_mem hf
  simp only [Directory.removeAll, Directory.add, List.filter_append, hkept]
  simp

end Files

/-! ## All or nothing -/

section AllOrNothing

variable (w : World) (faults : Faults) (s : Site) (uploadId passphrase : Text) (confirmHost : Option Text)

/-- What is to be put in place: an import up to its backup. -/
def prepare : Except MigrateError (Key × Store) := do
  let blob ← confirmed w faults s uploadId confirmHost
  unpack w faults s.app.protector blob passphrase

def CopyMade : Prop := backupName w.now ∉ s.dir.names ∧ faults.backup = none

/-- A database and its key are in place of what was, in every respect. -/
structure InPlace (s' : Site) (key : Key) (db : Store) : Prop where
  database : s'.app.store = db
  key : s'.app.vault = some key
  generation : s.app.generation < s'.app.generation
  tickets : s'.app.tickets.issued = []
  signalled : ∀ id l, s.app.live.inner id = some l → l.cancel = true → s'.app.live.fired id = true
  backup : (backupName w.now, s.app.store) ∈ s'.dir.files

/-- A failed import changes nothing, the backups included unless making one is what failed; one that succeeds
has everything in place. -/
def AllOrNothing : Prop :=
  match confirm w faults s uploadId passphrase confirmHost with
  | (.error _, s') => s'.app = s.app ∧ s'.uploads = s.uploads ∧
      ((∀ found, prepare w faults s uploadId passphrase confirmHost = .ok found → CopyMade w faults s) → s'.dir = s.dir)
  | (.ok _, s') => ∃ key db, prepare w faults s uploadId passphrase confirmHost = .ok (key, db) ∧ InPlace w s s' key db

/-- Once the backup is made, it can be deleted again where the file is not put in place, and is not among the
backups that are pruned where it is. -/
def BackupSafe : Prop :=
  ∀ found, prepare w faults s uploadId passphrase confirmHost = .ok found → CopyMade w faults s →
    if installed faults = .ok () then ¬ Pruned faults s.dir (backupName w.now)
    else faults.removes (backupName w.now) = true

variable {w faults s uploadId passphrase confirmHost}

theorem confirm_of_error {e : MigrateError} (h : prepare w faults s uploadId passphrase confirmHost = .error e) :
    confirm w faults s uploadId passphrase confirmHost = (.error e, s) := by
  unfold prepare at h
  unfold confirm
  split
  · rename_i e' he
    rw [he] at h
    cases h
    rfl
  · rename_i blob hblob
    rw [hblob] at h
    change unpack w faults s.app.protector blob passphrase = .error e at h
    simp only [apply, h]

variable {key : Key} {db : Store} {dir : Directory} {name : Text}

theorem confirm_of_ok (h : prepare w faults s uploadId passphrase confirmHost = .ok (key, db)) :
    confirm w faults s uploadId passphrase confirmHost =
      match swapIn w faults s key db with
      | (.error e, s') => (.error e, s')
      | (.ok counts, s') => (.ok counts, { s' with uploads := s'.uploads.filter fun u => u.1 != uploadId }) := by
  unfold prepare at h
  unfold confirm
  split
  · rename_i e' he
    rw [he] at h
    cases h
  · rename_i blob hblob
    rw [hblob] at h
    change unpack w faults s.app.protector blob passphrase = .ok (key, db) at h
    simp only [apply, h]

theorem swapIn_of_copy (key : Key) (db : Store) (h : CopyMade w faults s) :
    swapIn w faults s key db =
      match installed faults with
      | .error why => (.error (.store why), { s with
          dir := if faults.removes (backupName w.now) then s.dir else s.dir.add (backupName w.now) s.app.store h.1 })
      | .ok () => (.ok db.counts, { s with
          app := swapped s.app key db
          dir := pruneBackups faults (s.dir.add (backupName w.now) s.app.store h.1) keepBackups }) := by
  simp only [swapIn, snapshotTo, dif_neg h.1, h.2, removeAll_add]

theorem swapIn_of_no_copy (key : Key) (db : Store) (h : ¬ CopyMade w faults s) :
    ∃ e dir, swapIn w faults s key db = (.error e, { s with dir }) := by
  unfold swapIn snapshotTo
  by_cases hname : backupName w.now ∈ s.dir.names
  · simp only [dif_pos hname]
    exact ⟨_, _, rfl⟩
  · simp only [dif_neg hname]
    match hbackup : faults.backup with
    | none => exact absurd ⟨hname, hbackup⟩ h
    | some (why, none) => exact ⟨_, _, rfl⟩
    | some (why, some left) => exact ⟨_, _, rfl⟩

theorem signalled_swapped {a : App} {id : Nat} {l : Live} (h : a.live.inner id = some l) (hcancel : l.cancel = true) :
    (swapped a key db).live.fired id = true := by
  show (a.live.sweep .all).2.fired id = true
  rw [LiveSessions.fired_sweep h, hcancel]
  simp [Sweep.hits]

theorem mem_added (db : Store) (h : name ∉ dir.names) : (name, db) ∈ (dir.add name db h).files := List.mem_concat_self

theorem add_ne (db : Store) (h : name ∉ dir.names) : dir.add name db h ≠ dir := by
  intro heq
  exact h (List.mem_map_of_mem (heq ▸ mem_added db h))

theorem mem_pruned_added (db : Store) (h : name ∉ dir.names) :
    (name, db) ∈ (pruneBackups faults (dir.add name db h) keepBackups).files ↔ ¬ Pruned faults dir name := by
  rw [mem_pruneBackups, Pruned, Pruned, laterBackups_add h]
  exact and_iff_right (mem_added db h)

theorem confirm_of_copy (hprepare : prepare w faults s uploadId passphrase confirmHost = .ok (key, db))
    (h : CopyMade w faults s) : confirm w faults s uploadId passphrase confirmHost =
      match installed faults with
      | .error why => (.error (.store why), { s with
          dir := if faults.removes (backupName w.now) then s.dir else s.dir.add (backupName w.now) s.app.store h.1 })
      | .ok () => (.ok db.counts, {
          app := swapped s.app key db
          uploads := s.uploads.filter fun u => u.1 != uploadId
          dir := pruneBackups faults (s.dir.add (backupName w.now) s.app.store h.1) keepBackups }) := by
  rw [confirm_of_ok hprepare, swapIn_of_copy key db h]
  cases installed faults <;> rfl

theorem AllOrNothing.backupSafe (h : AllOrNothing w faults s uploadId passphrase confirmHost) :
    BackupSafe w faults s uploadId passphrase confirmHost := by
  rintro ⟨key, db⟩ hprepare hcopy
  rw [AllOrNothing, confirm_of_copy hprepare hcopy, hprepare] at h
  cases hinstalled : installed faults with
  | error why =>
    rw [hinstalled] at h
    rw [if_neg (by simp)]
    by_contra hremoves
    have hsame := h.2.2 fun _ _ => hcopy
    rw [if_neg hremoves] at hsame
    exact add_ne s.app.store hcopy.1 hsame
  | ok u =>
    rw [hinstalled] at h
    rw [if_pos rfl]
    obtain ⟨_, _, -, hplace⟩ := h
    exact (mem_pruned_added s.app.store hcopy.1).1 hplace.backup

theorem BackupSafe.allOrNothing (h : BackupSafe w faults s uploadId passphrase confirmHost) :
    AllOrNothing w faults s uploadId passphrase confirmHost := by
  unfold AllOrNothing
  cases hprepare : prepare w faults s uploadId passphrase confirmHost with
  | error e =>
    rw [confirm_of_error hprepare]
    exact ⟨rfl, rfl, fun _ => rfl⟩
  | ok found =>
    obtain ⟨key, db⟩ := found
    by_cases hcopy : CopyMade w faults s
    · rw [confirm_of_copy hprepare hcopy]
      have hsafe := h _ hprepare hcopy
      cases hinstalled : installed faults with
      | error why =>
        rw [hinstalled, if_neg (by simp)] at hsafe
        exact ⟨rfl, rfl, fun _ => if_pos hsafe⟩
      | ok u =>
        rw [hinstalled, if_pos rfl] at hsafe
        exact ⟨key, db, rfl, {
          database := rfl
          key := rfl
          generation := Nat.lt_succ_self _
          tickets := rfl
          signalled := fun id l h hcancel => signalled_swapped h hcancel
          backup := (mem_pruned_added s.app.store hcopy.1).2 hsafe }⟩
    · obtain ⟨e, dir, heq⟩ := swapIn_of_no_copy key db hcopy
      rw [confirm_of_ok hprepare, heq]
      exact ⟨rfl, rfl, fun hmade => absurd (hmade _ rfl) hcopy⟩

/-- An import is all or nothing exactly when its backup is safe: where it is made, it can be deleted again if the
file is not put in place, and is not pruned if it is. -/
theorem import_all_or_nothing (w : World) (faults : Faults) (s : Site) (uploadId passphrase : Text)
    (confirmHost : Option Text) :
    AllOrNothing w faults s uploadId passphrase confirmHost ↔ BackupSafe w faults s uploadId passphrase confirmHost :=
  ⟨AllOrNothing.backupSafe, BackupSafe.allOrNothing⟩

/-- A fresh proxy that holds an upload, beside backups of the given names. -/
def sampleSite (names : List Text) (h : names.Nodup) : Site where
  app := {}
  uploads := [(['u'], ⟨⟨['p'], aadExport, { masterRecovery := some (Vault.wrapRecovery 7 ['p']) }⟩, 0⟩)]
  dir := ⟨names.map fun n => (n, {}), by simpa [Function.comp_def] using h⟩

/-- Five backups whose times are in 2027. -/
def aheadBackups : List Text := ['1', '2', '3', '4', '5'].map fun c => "backup-2027010".toList ++ c :: "T000000Z.db"

/-- An import that succeeds in September 2026 deletes the backup it has just made, as five have a later time in
their names. An import whose file is not put in place keeps its copy when the copy cannot be deleted. -/
theorem import_not_all_or_nothing :
    ¬ AllOrNothing { now := 1790291700 } {} (sampleSite aheadBackups (by decide)) ['u'] ['p'] none ∧
    ¬ AllOrNothing { now := 1790291700 } { rename := some [], removes := fun _ => false }
      (sampleSite [] .nil) ['u'] ['p']
      none := by
  refine ⟨fun h => ?_, fun h => ?_⟩
  · have hsafe := h.backupSafe _ rfl ⟨by decide, rfl⟩
    rw [if_pos (show installed {} = .ok () from rfl)] at hsafe
    exact hsafe (by decide)
  · have hsafe := h.backupSafe _ rfl ⟨by decide, rfl⟩
    rw [if_neg (by decide)] at hsafe
    cases hsafe

/-! ## The program of an import -/

theorem swap_alone (me : Holder) (w : World) (a : App) (key : Key) (db : Store) :
    ((swap key db).alone (App.answer me w) a).2 = swapped a key db := rfl

theorem applyImport_alone (passphrase : Text) (me : Holder) (placeholder rename : Option Text) (logLeft lists : Bool)
    (removes : Text → Bool) (blob : Archive) (hname : backupName w.now ∉ s.dir.names) :
    ((applyImport blob passphrase (installed { placeholder, rename, logLeft })).alone (App.answer me w) s.app).2 =
      (apply w { placeholder, rename, logLeft, lists, removes } s blob passphrase).2.app := by
  have hinstalled : installed { placeholder, rename, logLeft, lists, removes } =
      installed { placeholder, rename, logLeft } := rfl
  unfold applyImport apply unpack
  cases hopen : blob.openWith passphrase aadExport with
  | none => rfl
  | some db =>
    have hprotector : (ask .protector).alone (App.answer me w) s.app = (s.app.protector, s.app) := rfl
    have htoken : (ask .randomToken).alone (App.answer me w) s.app = (w.token, s.app) := rfl
    simp only [Prog.alone_bind, hprotector, htoken]
    cases hstaged : staged s.app.protector passphrase (w.token.take 32) db with
    | error e => simp [attempt, Except.mapError, hstaged, bind, Except.bind]
    | ok found =>
      obtain ⟨key, db⟩ := found
      simp only [attempt, Except.mapError, hstaged, bind, Except.bind, pure, Except.pure, swapIn,
        snapshotTo, dif_neg hname,
        hinstalled]
      cases installed { placeholder, rename, logLeft } with
      | error why => rfl
      | ok u => exact swap_alone me w s.app key db

/-- The program of an import, run with nothing in between, leaves the proxy as the one step of `confirm` does, where no
file has the name of the new backup yet. -/
theorem confirmImport_alone (me : Holder) (placeholder rename : Option Text) (logLeft lists : Bool)
    (removes : Text → Bool) (hname : backupName w.now ∉ s.dir.names) :
    ((confirmImport ((heldUpload w s uploadId).map PendingImport.blob) passphrase confirmHost
        (installed { placeholder, rename, logLeft })).alone (App.answer me w) s.app).2 =
      (confirm w { placeholder, rename, logLeft, lists, removes } s uploadId passphrase confirmHost).2.app := by
  unfold confirm confirmed confirmImport
  cases hupload : heldUpload w s uploadId with
  | none => rfl
  | some p =>
    change ((if (holdsData s.app.store.counts && !confirmHost.any (confirms · s.app.hostName)) = true then _ else _ :
      Prog Api (ApiResult Counts)).alone (App.answer me w) s.app).2 = _
    by_cases hconfirm : (holdsData s.app.store.counts && !confirmHost.any (confirms · s.app.hostName)) = true
    · simp [hconfirm, attempt, bind, Except.bind]
    · rw [if_neg hconfirm]
      refine (applyImport_alone passphrase me placeholder rename logLeft lists removes p.blob hname).trans ?_
      simp only [attempt, bind, Except.bind, if_neg hconfirm]
      rcases apply w { placeholder, rename, logLeft, lists, removes } s p.blob passphrase with ⟨result, s'⟩
      cases result <;> rfl

end AllOrNothing

end WebAccess
