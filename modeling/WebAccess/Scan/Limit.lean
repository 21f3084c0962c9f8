/-
The file-size limit of a session. `relay_scanned` reads the Settings tab's limit when it builds the
clipboard task's context, and the context answers every later question with that value; a read that
fails counts as no limit. The Settings may change, and become unreadable, while the session runs, so
the limit that offers are held to is the stored one only where that has not been made stricter since.
-/
import WebAccess.Scan.Outcomes
import WebAccess.Store.Tables

namespace WebAccess.Scan

open Codec Wire Transition Store

/-! ## A session beside the settings -/

/-- What the stored limit is: nothing when the settings cannot be read, else a limit or none. -/
abbrev StoredLimit := Option (Option Nat)

/-- The limit `settings::read` gives. -/
def storedLimit (store : Store) (readable : Bool) : StoredLimit :=
  if readable then some store.readSettings.maxFileBytes else none

/-- One session's clipboard task, with the limit its context captured, beside the stored settings. -/
structure Limited where
  store : Store
  readable : Bool
  limit : Option Nat
  session : Session

/-- An administrator changes the settings, the database stops or starts being readable, or the
session goes on. -/
inductive Change
  | put (settings : Settings)
  | disk (readable : Bool)
  | event (l : Label)

namespace Limited

def stored (s : Limited) : StoredLimit := storedLimit s.store s.readable

/-- The start of a session: `settings::read(settings_store).ok().and_then(|s| s.max_file_bytes())` -/
def start (store : Store) (readable : Bool) (staging : Staging) : Limited where
  store := store
  readable := readable
  limit := (storedLimit store readable).join
  session := .start staging

/-- `put_settings` writes what passes its check; the session handles its events under the limit the
context holds. -/
def step (s : Limited) : Change → Option Limited
  | .put settings =>
    if settings.check.isOk then some { s with store := { s.store with settings := some settings } } else none
  | .disk readable => some { s with readable }
  | .event l => (s.session.step ⟨{ l.env with maxFileBytes := s.limit }, l.event⟩).map fun session =>
    { s with session }

end Limited

/-- The runs of a session beside the settings. -/
abbrev LimitedRun (store : Store) (readable : Bool) (staging : Staging) :
    List (Entry Limited Change) → Limited → Prop :=
  Run (fun s c s' => s.step c = some s') (Limited.start store readable staging)

/-! ## The limit in force -/

/-- A step announces files: their fetch starts. -/
def Announces (d : Dir) (files : List (Text × Nat)) (e : Entry Limited Change) : Prop :=
  (∃ l, e.label = .event l) ∧ .started d files ∈ e.post.session.clip.reports

/-- A fetch that starts is held to the limit stored at that moment, and is not free of any limit
where that cannot be read. -/
structure InForce (e : Entry Limited Change) : Prop where
  stored : ∀ m d files, e.pre.stored = some (some m) → Announces d files e → ∀ f ∈ files, f.2 ≤ m
  unreadable : ∀ d files, e.pre.stored = none → Announces d files e → e.pre.limit ≠ none

/-- What was read when the session started still serves: it is no larger than what is stored, and is
a limit where nothing can be read. -/
def Serves (first now : StoredLimit) : Prop :=
  (∀ m, now = some (some m) → ∃ n, first = some (some n) ∧ n ≤ m) ∧ (now = none → ∃ n, first = some (some n))

section Runs

variable {store : Store} {readable : Bool} {staging : Staging} {tr : List (Entry Limited Change)} {s s' : Limited}

/-- The session goes on under the limit it started with. -/
structure Captured (first : StoredLimit) (s : Limited) : Prop where
  limit : s.limit = first.join
  list : ListKept s.session

variable {first : StoredLimit} {c : Change}

theorem Captured.step (h : Captured first s) (hstep : s.step c = some s') : Captured first s' := by
  cases c with
  | put settings =>
    simp only [Limited.step] at hstep
    split at hstep
    · cases hstep
      exact ⟨h.limit, h.list⟩
    · cases hstep
  | disk readable =>
    cases hstep
    exact ⟨h.limit, h.list⟩
  | event l =>
    obtain ⟨session, hsession, rfl⟩ := Option.map_eq_some_iff.1 hstep
    exact ⟨h.limit, h.list.step hsession⟩

theorem captured (hrun : LimitedRun store readable staging tr s) : Captured (storedLimit store readable) s :=
  hrun.invariant ⟨rfl, listKept (Run.nil : SessionRun staging [] _)⟩ fun _ _ _ h hstep => h.step hstep

theorem Captured.limited {d : Dir} {files : List (Text × Nat)} (h : Captured first s) (hstep : s.step c = some s')
    (ha : Announces d files ⟨s, c, s'⟩) : ∀ n, first = some (some n) → ∀ f ∈ files, f.2 ≤ n := by
  rintro n rfl
  obtain ⟨⟨l, rfl⟩, hreport⟩ := ha
  obtain ⟨session, hsession, rfl⟩ := Option.map_eq_some_iff.1 hstep
  have htold := (Session.round hsession).told h.list d
  refine htold.limited (List.mem_filter.2 ⟨hreport, by simp [Report.dir]⟩) n ?_
  exact h.limit

/-- The file-size limit in force applies, in every run in which what the session read at its start
serves at every step. -/
theorem limit_in_force (hrun : LimitedRun store readable staging tr s)
    (hserves : ∀ e ∈ tr, Serves (storedLimit store readable) e.pre.stored) : ∀ e ∈ tr, InForce e := by
  intro e he
  obtain ⟨tr₁, tr₂, -, hbefore⟩ := hrun.exists_before he
  have hcaptured := captured hbefore
  have hstep := hrun.step_of_mem he
  obtain ⟨hstored, hunreadable⟩ := hserves e he
  constructor
  · intro m d files hm ha f hf
    obtain ⟨n, hn, hle⟩ := hstored m hm
    exact (hcaptured.limited hstep ha n hn f hf).trans hle
  · intro d files hnone ha
    obtain ⟨n, hn⟩ := hunreadable hnone
    rw [hcaptured.limit, hn]
    exact Option.some_ne_none n

end Runs

/-- A client offers one file of two million bytes and more. -/
def bigFile : List Change := [.event ⟨scriptEnv, offerFile⟩, .event ⟨scriptEnv, listFile 'a' 2097152⟩]

def limited (mb : Nat) : Settings := { maxFileMb := mb }

def announcesBig (e : Entry Limited Change) : Bool :=
  match e.label with
  | .event _ => e.post.session.clip.reports.any fun r =>
    match r with
    | .started .upload files => decide (files = [(['a'], 2097152)])
    | _ => false
  | _ => false

theorem announces_of_announcesBig {e : Entry Limited Change} (h : announcesBig e = true) :
    Announces .upload [(['a'], 2097152)] e := by
  unfold announcesBig at h
  split at h
  · rename_i l hl
    obtain ⟨r, hr, hfiles⟩ := List.any_eq_true.1 h
    split at hfiles
    · rw [of_decide_eq_true hfiles] at hr
      exact ⟨⟨l, hl⟩, hr⟩
    · cases hfiles
  · cases h

/-- A session that starts under a limit of three megabytes lets the file through, and the limit
stays. -/
theorem limit_in_force_three : ∃ tr s, LimitedRun { settings := some (limited 3) } true ⟨0, 3000000⟩ tr s ∧
    (∃ e ∈ tr, Announces .upload [(['a'], 2097152)] e) ∧ ∀ e ∈ tr, InForce e := by
  obtain ⟨s, hrun, -⟩ := run_of_exec Limited.step (Limited.start { settings := some (limited 3) } true ⟨0, 3000000⟩)
    bigFile (fun _ => true) (by decide +kernel)
  have hscript : ((trace Limited.step (Limited.start { settings := some (limited 3) } true ⟨0, 3000000⟩) bigFile).all
        (fun e => decide (e.pre.stored = some (some 3145728))) &&
      (trace Limited.step (Limited.start { settings := some (limited 3) } true ⟨0, 3000000⟩) bigFile).any
        announcesBig) = true := by decide +kernel
  obtain ⟨hstored, hbig⟩ := Bool.and_eq_true_iff.1 hscript
  obtain ⟨e, he, hbig⟩ := List.any_eq_true.1 hbig
  have hfirst : storedLimit { settings := some (limited 3) } true = some (some 3145728) := by decide +kernel
  refine ⟨_, s, hrun, ⟨e, he, announces_of_announcesBig hbig⟩, limit_in_force hrun fun e he => ?_⟩
  rw [of_decide_eq_true (List.all_eq_true.1 hstored e he), hfirst]
  exact ⟨fun m hm => ⟨m, hm, le_rfl⟩, nofun⟩

/-- A session that started while there was no limit does not hear of one that is stored later, nor
of the settings having become unreadable. -/
theorem limit_read_once :
    (∃ tr s, LimitedRun {} true ⟨0, 3000000⟩ tr s ∧ ∃ e ∈ tr, e.pre.stored = some (some 1048576) ∧
      Announces .upload [(['a'], 2097152)] e) ∧
    ∃ tr s, LimitedRun {} true ⟨0, 3000000⟩ tr s ∧ ∃ e ∈ tr, e.pre.stored = none ∧ e.pre.limit = none ∧
      Announces .upload [(['a'], 2097152)] e := by
  have hscripts : ∀ (c : Change) (P : Limited → Bool),
      ((exec Limited.step (Limited.start {} true ⟨0, 3000000⟩) (c :: bigFile)).isSome &&
        (trace Limited.step (Limited.start {} true ⟨0, 3000000⟩) (c :: bigFile)).any
          fun e => P e.pre && announcesBig e) = true →
      ∃ tr s, LimitedRun {} true ⟨0, 3000000⟩ tr s ∧ ∃ e ∈ tr, P e.pre = true ∧
        Announces .upload [(['a'], 2097152)] e := by
    intro c P h
    obtain ⟨hsome, hany⟩ := Bool.and_eq_true_iff.1 h
    obtain ⟨s, hs⟩ := Option.isSome_iff_exists.1 hsome
    obtain ⟨e, he, hP⟩ := List.any_eq_true.1 hany
    obtain ⟨hP, hbig⟩ := Bool.and_eq_true_iff.1 hP
    exact ⟨_, s, run_trace (fun _ _ _ h => h) hs, e, he, hP, announces_of_announcesBig hbig⟩
  obtain ⟨tr, s, hrun, e, he, hstored, ha⟩ := hscripts (.put (limited 1))
    (fun s => decide (s.stored = some (some 1048576))) (by decide +kernel)
  obtain ⟨tr', s', hrun', e', he', hnone, ha'⟩ := hscripts (.disk false)
    (fun s => decide (s.stored = none ∧ s.limit = none)) (by decide +kernel)
  obtain ⟨hnone, hlimit⟩ := of_decide_eq_true hnone
  exact ⟨⟨tr, s, hrun, e, he, of_decide_eq_true hstored, ha⟩, tr', s', hrun', e', he', hnone, hlimit, ha'⟩

end WebAccess.Scan
