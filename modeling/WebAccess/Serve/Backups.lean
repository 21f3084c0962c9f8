/-
The import backups of a data directory over a history of imports. A backup is named by the time it is made,
the names are in the order of the times while the year is one of 2000 to 2999, and after each import that
succeeds the newest are kept. Between two imports the proxy serves, and files that are no import backups may
come and go.
-/
import WebAccess.Lib.Transition
import WebAccess.Saml.Calendar
import WebAccess.Serve.Importing
import Mathlib.Data.List.DropRight

namespace WebAccess

open Codec Wire Process Transition Calendar Digits

/-! ## The names of backups -/

def InMillennium (t : Int) : Prop := 2000 ≤ (utcParts t).1 ∧ (utcParts t).1 ≤ 2999

instance (t : Int) : Decidable (InMillennium t) := inferInstanceAs (Decidable (_ ∧ _))

variable {t : Int} {faults : Faults}

theorem stamp_of_millennium (h : InMillennium t) : ∃ y m d hr mi s : Nat, 2000 ≤ y ∧ y ≤ 2999 ∧ Valid y m d ∧
    (hr ≤ 23 ∧ mi ≤ 59 ∧ s ≤ 59) ∧ seconds y m d hr mi s = t ∧
    utcStamp t = fixed 4 y ++ (fixed 2 m ++ (fixed 2 d ++
        'T' :: (fixed 2 hr ++ (fixed 2 mi ++ (fixed 2 s ++ ['Z']))))) := by
  have hparts := Saml.utcParts_eq t
  obtain ⟨hvalid, hnumber⟩ := Saml.civilFromDays_spec (t / 86400)
  unfold InMillennium at h
  unfold utcStamp
  generalize Saml.civilFromDays (t / 86400) = date at *
  obtain ⟨y, m, d⟩ := date
  rw [hparts] at h ⊢
  dsimp only at h hvalid hnumber ⊢
  obtain ⟨y, rfl⟩ := Int.eq_ofNat_of_zero_le (a := y) (by omega)
  refine ⟨y, m, d, (t % 86400 / 3600).toNat, (t % 86400 % 3600 / 60).toNat, (t % 86400 % 60).toNat, by omega, by omega,
    hvalid, by omega, ?_, rfl⟩
  unfold seconds
  omega

theorem backupName_eq (t : Int) : backupName t = "backup-" ++ (utcStamp t ++ ".db") :=
  List.append_assoc ..

theorem backupName_lt {t' : Int} (h : InMillennium t) (h' : InMillennium t') (hlt : t < t') :
    backupName t < backupName t' := by
  obtain ⟨y, m, d, hr, mi, s, hfrom, hto, hdate, htime, ht, hstamp⟩ := stamp_of_millennium h
  obtain ⟨y', m', d', hr', mi', s', hfrom', hto', hdate', htime', ht', hstamp'⟩ := stamp_of_millennium h'
  rw [← ht, ← ht'] at hlt
  have hmonth := hdate.month
  have hday := hdate.day
  have hmonth' := hdate'.month
  have hday' := hdate'.day
  have htwo : ∀ n n' : Nat, n < 100 → n' < 100 → ∀ a b : Text, fixed 2 n ++ a < fixed 2 n' ++ b ↔
      n < n' ∨ n = n' ∧ a < b :=
    fun n n' hn hn' a b => fixed_append_lt_iff (by decide) hn hn'
  rw [backupName_eq, backupName_eq, hstamp, hstamp']
  refine (append_lt_append_iff rfl).2 (Or.inr ⟨rfl, ?_⟩)
  generalize ".db" = extension
  simp only [List.append_assoc, List.cons_append]
  rw [fixed_append_lt_iff (by decide) (by omega) (by omega), htwo _ _ (by omega) (by omega),
    htwo _ _ (by omega) (by omega),
    List.cons_lt_cons_self, htwo _ _ (by omega) (by omega), htwo _ _ (by omega) (by omega),
      htwo _ _ (by omega) (by omega)]
  rw [← Nat.cast_lt (α := Int) (m := y), ← Nat.cast_inj (R := Int) (m := y)]
  exact (seconds_lt_iff hdate hdate' htime htime').1 (Or.inl hlt)

theorem isImportBackup_backupName (h : InMillennium t) : isImportBackup (backupName t) = true := by
  obtain ⟨y, m, d, hr, mi, s, hfrom, hto, -, -, -, hstamp⟩ := stamp_of_millennium h
  -- the first digit of such a year
  obtain ⟨rest, hyear⟩ : ∃ rest, fixed 4 y = '2' :: rest := by
    have hlen := length_fixed (w := 4) (n := y) (by decide) (by omega)
    have hvalue := value_fixed 4 y
    have hdigits := areDigits_fixed 4 y
    cases hf : fixed 4 y with
    | nil => simp [hf] at hlen
    | cons c rest =>
      rw [hf] at hlen hvalue hdigits
      rw [value_cons, show rest.length = 3 by simpa using hlen] at hvalue
      have hrest := value_lt hdigits.tail
      rw [show rest.length = 3 by simpa using hlen] at hrest
      have hc := digit_bounds (hdigits c List.mem_cons_self)
      refine ⟨rest, by rw [show c = '2' from Char.toNat_inj.1 (show c.toNat = 50 by omega)]⟩
  rw [isImportBackup, Bool.and_eq_true, List.isPrefixOf_iff_prefix, List.isSuffixOf_iff_suffix]
  refine ⟨?_, List.suffix_append ..⟩
  rw [backupName_eq, hstamp, hyear]
  exact ⟨_, rfl⟩

/-! ## The directory -/

namespace Directory

def backups (d : Directory) : List Text := d.names.filter isImportBackup

variable {d : Directory} {name : Text}

theorem names_add (db : Store) (h : name ∉ d.names) : (d.add name db h).names = d.names ++ [name] := by
  simp [names, add]

theorem names_removeAll (d : Directory) (gone : List Text) :
    (d.removeAll gone).names = d.names.filter fun n => n ∉ gone := by
  simp only [names, removeAll, List.filter_map]
  rfl

theorem backups_add (db : Store) (h : name ∉ d.names) (hname : isImportBackup name = true) :
    (d.add name db h).backups = d.backups ++ [name] := by
  simp [backups, names_add, hname]

end Directory

theorem filter_not_mem_take {α : Type} [BEq α] [LawfulBEq α] {l : List α} (h : l.Nodup) (k : Nat) :
    (l.filter fun a => decide (a ∉ l.take k)) = l.drop k := by
  have hcut : (l.take k ++ l.drop k).Nodup := by rwa [List.take_append_drop]
  obtain ⟨-, -, hapart⟩ := List.nodup_append.1 hcut
  calc (l.filter fun a => decide (a ∉ l.take k))
      = ((l.take k ++ l.drop k).filter fun a => decide (a ∉ l.take k)) := by rw [List.take_append_drop]
    _ = [] ++ l.drop k := by
      rw [List.filter_append, List.filter_eq_nil_iff.2 fun a ha => by simp [ha],
        List.filter_eq_self.2 fun a ha => by simpa using fun hfirst => hapart a hfirst a ha rfl]

variable {d : Directory}

theorem backups_pruneBackups {keep : Nat} (hlists : faults.lists = true)
    (hremoves : ∀ name, faults.removes name = true) (hsorted : d.backups.Pairwise (· < ·)) :
    (pruneBackups faults d keep).backups = d.backups.rtake keep := by
  have hsort : (d.names.filter isImportBackup).mergeSort (fun a b => decide (a ≤ b)) = d.backups :=
    List.mergeSort_of_pairwise (hsorted.imp fun h => decide_eq_true h.le)
  have hnodup : d.backups.Nodup := hsorted.imp fun h => h.ne
  rw [pruneBackups, if_pos hlists]
  simp only [hsort]
  rw [List.filter_eq_self.2 fun n _ => hremoves n, Directory.backups, Directory.names_removeAll, List.filter_comm]
  exact filter_not_mem_take hnodup _

theorem mem_pruneBackups_of_other {f : Text × Store} (hf : f ∈ d.files) (hother : isImportBackup f.1 = false) :
    f ∈ (pruneBackups faults d keepBackups).files :=
  mem_pruneBackups.2 ⟨hf, fun hpruned => Bool.false_ne_true (hother.symm.trans hpruned.2.2.1)⟩

/-! ## A history of imports -/

/-- What happens at a proxy, as far as its data directory goes: an import is confirmed, with its outcome, or the
proxy serves. -/
inductive Happening
  | confirm (w : World) (faults : Faults) (uploadId passphrase : Text) (confirmHost : Option Text)
      (result : Except MigrateError Counts)
  | serves

/-- While the proxy serves its files may change, but not its import backups. -/
def Site.Step (s : Site) : Happening → Site → Prop
  | .confirm w faults uploadId passphrase confirmHost result, s' =>
    WebAccess.confirm w faults s uploadId passphrase confirmHost = (result, s')
  | .serves, s' => s'.dir.backups = s.dir.backups

namespace Happening

/-- When an import is confirmed. -/
def time : Happening → Option Int
  | confirm w .. => some w.now
  | serves => none

/-- When an import is confirmed that succeeds. -/
def success : Happening → Option Int
  | confirm w _ _ _ _ (.ok _) => some w.now
  | _ => none

/-- Making the copy does not fail: an import that is refused once it is staged is refused at the swap. -/
def AtSwap : Happening → Prop
  | confirm _ faults .. => faults.backup = none
  | serves => True

/-- The data directory can be listed, and the files in it can be deleted. -/
def FilesYield : Happening → Prop
  | confirm _ faults .. => faults.lists = true ∧ ∀ name, faults.removes name = true
  | serves => True

end Happening

/-- The times of the imports of a history, and of those that succeed. -/
def times (tr : List (Entry Site Happening)) : List Int := tr.filterMap fun e => e.label.time

def made (tr : List (Entry Site Happening)) : List Int := tr.filterMap fun e => e.label.success

theorem made_sublist (tr : List (Entry Site Happening)) : (made tr).Sublist (times tr) := by
  induction tr with
  | nil => exact .slnil
  | cons e tr ih =>
    rw [made, times, List.filterMap_cons, List.filterMap_cons]
    match e.label with
    | .confirm w _ _ _ _ (.ok _) => exact ih.cons_cons _
    | .confirm w _ _ _ _ (.error _) => exact ih.cons _
    | .serves => exact ih

theorem dir_of_confirm {w : World} {s s' : Site} {uploadId passphrase : Text} {confirmHost : Option Text}
    {result : Except MigrateError Counts} (hstep : confirm w faults s uploadId passphrase confirmHost = (result, s'))
    (hcopy : CopyMade w faults s) (hremoves : faults.removes (backupName w.now) = true) :
    match result with
    | .error _ => s'.dir = s.dir
    | .ok _ => s'.dir = pruneBackups faults (s.dir.add (backupName w.now) s.app.store hcopy.1) keepBackups := by
  cases hprepare : prepare w faults s uploadId passphrase confirmHost with
  | error e =>
    rw [confirm_of_error hprepare] at hstep
    cases hstep
    rfl
  | ok found =>
    obtain ⟨key, db⟩ := found
    rw [confirm_of_copy hprepare hcopy] at hstep
    cases hinstalled : installed faults with
    | error why =>
      rw [hinstalled] at hstep
      cases hstep
      exact if_pos hremoves
    | ok u =>
      rw [hinstalled] at hstep
      cases hstep
      rfl

/-- An import that succeeds leaves a copy of what it replaced and every file that is no import backup; one that is
refused leaves the directory. -/
def Kept (e : Entry Site Happening) : Prop :=
  match e.label with
  | .confirm w _ _ _ _ (.ok _) => (backupName w.now, e.pre.app.store) ∈ e.post.dir.files ∧
      ∀ f ∈ e.pre.dir.files, isImportBackup f.1 = false → f ∈ e.post.dir.files
  | .confirm _ _ _ _ _ (.error _) => e.post.dir = e.pre.dir
  | .serves => True

theorem rtake_rtake_concat {α : Type} (l : List α) (a : α) (k : Nat) :
    (l.rtake (k + 1) ++ [a]).rtake (k + 1) = (l ++ [a]).rtake (k + 1) := by
  rw [List.rtake_concat_succ, List.rtake_concat_succ]
  simp only [List.rtake_eq_reverse_take_reverse, List.reverse_reverse, List.take_take, Nat.min_eq_left (Nat.le_succ k)]

section Step

variable {past : List Int} {t : Int}

def newest (past : List Int) : List Text := (past.rtake keepBackups).map backupName

variable {n : Text}

theorem mem_newest (h : n ∈ newest past) : ∃ t' ∈ past, backupName t' = n := by
  obtain ⟨t', ht', rfl⟩ := List.mem_map.1 h
  exact ⟨t', List.mem_of_mem_drop ht', rfl⟩

theorem lt_of_mem_newest (hpast : ∀ t' ∈ past, InMillennium t' ∧ t' < t) (ht : InMillennium t) (h : n ∈ newest past) :
    n < backupName t := by
  obtain ⟨t', ht', rfl⟩ := mem_newest h
  exact backupName_lt (hpast t' ht').1 ht (hpast t' ht').2

theorem newest_sorted (hsorted : past.Pairwise (· < ·)) (hpast : ∀ t' ∈ past, InMillennium t') :
    (newest past).Pairwise (· < ·) := by
  have hkept : (past.rtake keepBackups).Pairwise (· < ·) := hsorted.sublist (List.drop_sublist _ _)
  refine List.pairwise_map.2 (hkept.imp_of_mem fun ha hb hlt => ?_)
  exact backupName_lt (hpast _ (List.mem_of_mem_drop ha)) (hpast _ (List.mem_of_mem_drop hb)) hlt

theorem backups_after {d : Directory} (db : Store) (hname : backupName t ∉ d.names) (hlists : faults.lists = true)
    (hremoves : ∀ name, faults.removes name = true) (hsorted : past.Pairwise (· < ·))
    (hpast : ∀ t' ∈ past, InMillennium t' ∧ t' < t) (ht : InMillennium t) (h : d.backups = newest past) :
    (pruneBackups faults (d.add (backupName t) db hname) keepBackups).backups = newest (past ++ [t]) := by
  have hadd := Directory.backups_add db hname (isImportBackup_backupName ht)
  rw [h] at hadd
  have horder : (newest past ++ [backupName t]).Pairwise (· < ·) := by
    refine List.pairwise_append.2 ⟨newest_sorted hsorted fun t' ht' => (hpast t' ht').1, List.pairwise_singleton .., ?_⟩
    intro a ha b hb
    obtain rfl := List.mem_singleton.1 hb
    exact lt_of_mem_newest hpast ht ha
  rw [backups_pruneBackups hlists hremoves (hadd ▸ horder), hadd]
  have hone : newest past ++ [backupName t] = (past.rtake keepBackups ++ [t]).map backupName := by simp [newest]
  rw [hone, List.rtake, List.length_map, ← List.map_drop]
  exact congrArg (List.map backupName) (rtake_rtake_concat past t 4)

theorem Site.Step.keeps {s s' : Site} {l : Happening} (hstep : s.Step l s') (hswap : l.AtSwap) (hfiles : l.FilesYield)
    (hsorted : past.Pairwise (· < ·)) (htime : ∀ t ∈ l.time, InMillennium t ∧ ∀ t' ∈ past, InMillennium t' ∧ t' < t)
    (h : s.dir.backups = newest past) :
    s'.dir.backups = newest (past ++ l.success.toList) ∧ Kept ⟨s, l, s'⟩ := by
  cases l with
  | serves => exact ⟨by simpa [Happening.success] using hstep.trans h, trivial⟩
  | confirm w faults uploadId passphrase confirmHost result =>
    obtain ⟨ht, hpast⟩ := htime w.now rfl
    obtain ⟨hlists, hremoves⟩ := hfiles
    have hname : backupName w.now ∉ s.dir.names := fun hmem => by
      have hbackup : backupName w.now ∈ s.dir.backups := List.mem_filter.2 ⟨hmem, isImportBackup_backupName ht⟩
      exact lt_irrefl _ (lt_of_mem_newest hpast ht (h ▸ hbackup))
    have hdir := dir_of_confirm hstep ⟨hname, hswap⟩ (hremoves _)
    cases result with
    | error e => exact ⟨by rw [hdir, h]; simp [Happening.success], hdir⟩
    | ok counts =>
      refine ⟨?_, ?_, fun f hf hother => ?_⟩
      · rw [hdir]
        exact backups_after s.app.store hname hlists hremoves hsorted hpast ht h
      · have hlater : laterBackups s.dir (backupName w.now) = [] := by
          refine List.filter_eq_nil_iff.2 fun n hn => ?_
          rw [isBefore_iff]
          change n ∈ s.dir.backups at hn
          exact lt_asymm (lt_of_mem_newest hpast ht (h ▸ hn))
        rw [hdir]
        refine (mem_pruned_added s.app.store hname).2 fun hpruned => ?_
        have hmany := hpruned.2.2.2
        rw [hlater] at hmany
        exact absurd hmany (by decide)
      · rw [hdir]
        exact mem_pruneBackups_of_other (List.mem_append_left _ hf) hother

end Step

theorem times_concat (tr : List (Entry Site Happening)) (e : Entry Site Happening) :
    times (tr ++ [e]) = times tr ++ e.label.time.toList := by
  rw [times, List.filterMap_append]
  cases h : e.label.time <;> simp [times, h]

theorem made_concat (tr : List (Entry Site Happening)) (e : Entry Site Happening) :
    made (tr ++ [e]) = made tr ++ e.label.success.toList := by
  rw [made, List.filterMap_append]
  cases h : e.label.success <;> simp [made, h]

/-- In a directory that held no import backups, and whose files can be listed and deleted, the import backups are at
any time those of the newest imports that succeeded, at most five, each a copy of the database it replaced; one that
is refused at the swap leaves the directory as it was, and no other file is deleted. -/
theorem backups_are_newest {s₀ s : Site} {tr : List (Entry Site Happening)} (hrun : Run Site.Step s₀ tr s)
    (hnone : ∀ name ∈ s₀.dir.names, isImportBackup name = false) (hswap : ∀ e ∈ tr, e.label.AtSwap)
    (htimes : (times tr).Pairwise (· < ·)) (hyears : ∀ t ∈ times tr, InMillennium t)
    (hfiles : ∀ e ∈ tr, e.label.FilesYield) :
    s.dir.backups = ((made tr).rtake keepBackups).map backupName ∧ ∀ e ∈ tr, Kept e := by
  induction hrun with
  | nil => exact ⟨List.filter_eq_nil_iff.2 fun name hname => by simp [hnone name hname], by simp⟩
  | @snoc tr s s' l hrun hstep ih =>
    rw [times_concat, List.pairwise_append] at htimes
    rw [times_concat] at hyears
    obtain ⟨hbackups, hkept⟩ := ih (fun e he => hswap e (List.mem_append_left _ he)) htimes.1
      (fun t ht => hyears t (List.mem_append_left _ ht)) (fun e he => hfiles e (List.mem_append_left _ he))
    have hlast : (⟨s, l, s'⟩ : Entry Site Happening) ∈ tr ++ [⟨s, l, s'⟩] := by simp
    obtain ⟨hnext, hentry⟩ := hstep.keeps (hswap _ hlast) (hfiles _ hlast) (htimes.1.sublist (made_sublist tr))
      (fun t ht => ⟨hyears t (List.mem_append_right _ (Option.mem_toList.2 ht)), fun t' ht' =>
        have hbefore := (made_sublist tr).subset ht'
        ⟨hyears t' (List.mem_append_left _ hbefore), htimes.2.2 t' hbefore t (Option.mem_toList.2 ht)⟩⟩) hbackups
    refine ⟨by rw [made_concat]; exact hnext, fun e he => ?_⟩
    rcases mem_snoc.1 he with he | rfl
    · exact hkept e he
    · exact hentry

/-- An import of the upload a fresh proxy holds, in September 2026. -/
def oneImport (faults : Faults) : Entry Site Happening :=
  let s := sampleSite [] .nil
  let (result, s') := confirm { now := 1790291700 } faults s ['u'] ['p'] none
  ⟨s, .confirm { now := 1790291700 } faults ['u'] ['p'] none result, s'⟩

theorem oneImport_run (faults : Faults) : Run Site.Step (sampleSite [] .nil) [oneImport faults]
    (oneImport faults).post :=
  .snoc .nil rfl

/-- After the first import there is one backup, which is its own. -/
theorem backups_are_newest_first : (oneImport {}).post.dir.backups = [backupName 1790291700] ∧ Kept (oneImport {}) := by
  obtain ⟨hbackups, hkept⟩ := backups_are_newest (oneImport_run {}) (by simp [sampleSite, Directory.names])
    (by simp [oneImport, Happening.AtSwap]) (by decide) (by decide) (by simp [oneImport, Happening.FilesYield])
  exact ⟨hbackups, hkept _ (List.mem_singleton_self _)⟩

/-- Where the copy of an import that is refused at the swap cannot be deleted, it stays: a backup has been added
of an import that replaced nothing. -/
theorem backups_not_newest : ∃ e : Entry Site Happening, Run Site.Step e.pre [e] e.post ∧
    (∀ name ∈ e.pre.dir.names, isImportBackup name = false) ∧ e.label.AtSwap ∧
    (∀ t ∈ times [e], InMillennium t) ∧ made [e] = [] ∧ e.post.dir.backups = [backupName 1790291700] :=
  ⟨oneImport { rename := some [], removes := fun _ => false }, oneImport_run _,
    by simp [oneImport, sampleSite, Directory.names],
    rfl, by decide, by decide, by decide⟩

end WebAccess
