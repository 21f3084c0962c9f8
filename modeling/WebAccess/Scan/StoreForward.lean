/-
Store and forward: every byte of a file the proxy gives a receiver comes from a buffer that the
scanner was run on as it stands, in an offer whose every file was called clean, and file contents
from an endpoint are never passed on. Proved over every run of one session's proxy: the invariant
ties each direction's phase to the jobs that were started and the verdicts that were reported.
-/
import WebAccess.Scan.Moves

namespace WebAccess.Scan

open Codec Wire Transition

/-! ## Jobs and verdicts of a history -/

/-- Every scan job started, oldest first. -/
def started (tr : Trace) : List Job := tr.flatMap fun e => e.post.clip.jobs

def Event.report? : Event → Option (Job × Verdict)
  | .verdict job v => some (job, v)
  | _ => none

/-- Every verdict reported, oldest first. -/
def reported (tr : Trace) : List (Job × Verdict) := tr.filterMap fun e => e.label.event.report?

@[simp] theorem started_nil : started [] = [] := rfl
@[simp] theorem reported_nil : reported [] = [] := rfl

@[simp] theorem started_snoc (tr : Trace) (e : Entry Session Label) :
    started (tr ++ [e]) = started tr ++ e.post.clip.jobs := by simp [started]

@[simp] theorem reported_snoc (tr : Trace) (e : Entry Session Label) :
    reported (tr ++ [e]) = reported tr ++ e.label.event.report?.toList := by
  unfold reported
  rw [List.filterMap_append]
  cases h : e.label.event.report? <;> simp [h]

/-! ## The jobs of an offer -/

variable {d : Dir} {env : Env} {v v' : View} {hd : Heard} {s s' : Session} {l : Label}

theorem mem_jobsOf {g : Nat} {files : List FileDescriptor} {data : List Bytes} {j : Job} :
    j ∈ Clip.jobsOf d g files data ↔
      ∃ i file b, files[i]? = some file ∧ data[i]? = some b ∧ j = ⟨d, g, i, file.name, b⟩ := by
  unfold Clip.jobsOf
  rw [List.mem_mapIdx]
  constructor
  · rintro ⟨i, hi, rfl⟩
    rw [List.length_zip] at hi
    refine ⟨i, files[i], data[i], ?_, ?_, ?_⟩
    · exact List.getElem?_eq_getElem _
    · exact List.getElem?_eq_getElem _
    · simp
  · rintro ⟨i, file, b, hf, hb, rfl⟩
    obtain ⟨hi, rfl⟩ := List.getElem?_eq_some_iff.1 hf
    obtain ⟨hi', rfl⟩ := List.getElem?_eq_some_iff.1 hb
    exact ⟨i, by rw [List.length_zip]; omega, by simp⟩

theorem nodup_jobsOf (d : Dir) (g : Nat) (files : List FileDescriptor) (data : List Bytes) :
    (Clip.jobsOf d g files data).Nodup := by
  refine List.pairwise_iff_getElem.2 fun i k hi hk hik heq => ?_
  have hindex := congrArg Job.index heq
  simp only [Clip.jobsOf, List.getElem_mapIdx] at hindex
  omega

theorem clean_of_objections_eq_nil : ∀ {files : List FileDescriptor} {verdicts : List (Option Verdict)},
    Clip.objections files verdicts = [] → verdicts.length = files.length → ∀ v ∈ verdicts, v = some .clean
  | [], [], _, _, v, hv => by cases hv
  | f :: fs, w :: ws, h, hlen, v, hv => by
    unfold Clip.objections at h
    rw [List.zip_cons_cons, List.filterMap_cons] at h
    split at h
    · rename_i hw
      rcases List.mem_cons.1 hv with rfl | hv
      · cases v with
        | none => cases hw
        | some v => cases v <;> first | rfl | cases hw
      · have hrest : Clip.objections fs ws = [] := h
        exact clean_of_objections_eq_nil hrest (by simpa using hlen) v hv
    · cases h

/-! ## What a phase has behind it -/

def Fresh (d : Dir) (tr : Trace) (g : Nat) : Prop := ∀ j ∈ started tr, j.dir = d → j.generation ≠ g

structure Listed (descriptor : Bytes) (files : List FileDescriptor) (data : List Bytes) : Prop where
  read : packedFileList.run' descriptor = some files
  buffers : data.length = files.length

/-- The scans of an offer are under way: one job was started for each buffer and no other, and a
verdict that is in was reported by the job of its index. -/
structure Underway (d : Dir) (tr : Trace) (g : Nat) (s : Scanning) : Prop where
  listed : Listed s.descriptor s.files s.data
  verdicts : s.verdicts.length = s.files.length
  jobs : ∀ j ∈ Clip.jobsOf d g s.files s.data, j ∈ started tr
  only : ∀ j ∈ started tr, j.dir = d → j.generation = g → j ∈ Clip.jobsOf d g s.files s.data
  heard : ∀ (i : Nat) (v : Verdict), s.verdicts[i]? = some (some v) →
    ∃ j ∈ started tr, j.dir = d ∧ j.generation = g ∧ j.index = i ∧ (j, v) ∈ reported tr

/-- An offer is cleared: the scanner was run on every one of its buffers as it stands and on
nothing else for this offer, and every run of it reported clean and nothing else. -/
structure Cleared (d : Dir) (tr : Trace) (g : Nat) (data : List Bytes) : Prop where
  scanned : ∀ (i : Nat) (b : Bytes), data[i]? = some b →
    ∃ j ∈ started tr, j.dir = d ∧ j.generation = g ∧ j.index = i ∧ j.bytes = b
  clean : ∀ j ∈ started tr, j.dir = d → j.generation = g →
    data[j.index]? = some j.bytes ∧ (j, .clean) ∈ reported tr
  unanimous : ∀ j v, (j, v) ∈ reported tr → j.dir = d → j.generation = g → v = .clean

/-- What the history says about the phase of a direction, by phase and step. -/
def PhaseOk (d : Dir) (tr : Trace) (bound : Nat) : Phase → Prop
  | .idle => True
  | .fetching f => f.generation ≤ bound ∧ match f.step with
    | .descriptor => Fresh d tr f.generation
    | .contents s => Fresh d tr f.generation ∧ Listed s.descriptor s.files s.data
    | .scanning s => Underway d tr f.generation s
  | .offered o => ∃ g ≤ bound, (∃ files, Listed o.descriptor files o.data) ∧ Cleared d tr g o.data

/-- The jobs and the verdicts of a history, beside the phases. -/
structure Vetted (tr : Trace) (s : Session) : Prop where
  phase : ∀ d, PhaseOk d tr s.clip.generation (s.clip.direction d).phase
  bound : ∀ j ∈ started tr, j.generation ≤ s.clip.generation
  running : ∀ j ∈ s.running, j ∈ started tr ∧ ∀ v, (j, v) ∉ reported tr
  nodup : s.running.Nodup
  known : ∀ j v, (j, v) ∈ reported tr → j ∈ started tr
  once : ∀ j v v', (j, v) ∈ reported tr → (j, v') ∈ reported tr → v = v'

/-! ## One round -/

/-- The jobs a round starts are those of an offer for which none was started before. -/
inductive Spawned (s s' : Session) : Prop
  | none (jobs : s'.clip.jobs = [])
  | some {d : Dir} {f f' : Fetch} {sc : Scanning} (before : (s.clip.direction d).phase = .fetching f)
      (unscanned : ∀ sc, f.step ≠ .scanning sc) (generation : f'.generation = f.generation)
      (after : (s'.clip.direction d).phase.Scans f' sc)
      (jobs : s'.clip.jobs = Clip.jobsOf d f.generation sc.files sc.data)

theorem Next.jobs {f : Fetch} {s : Contents} (h : Next env d f s v v') :
    v'.jobs = v.jobs ∨ ∃ f' sc, f'.generation = f.generation ∧ v'.phase.Scans f' sc ∧
      v'.jobs = v.jobs ++ Clip.jobsOf d f.generation sc.files sc.data := by
  cases h with
  | ask => exact .inl rfl
  | scan =>
    refine .inr ⟨_, ⟨s.descriptor, s.files, s.data, _⟩, ?_, ⟨rfl, rfl⟩, rfl⟩
    rfl

theorem Move.jobs (h : Move env d v hd v') :
    v'.jobs = v.jobs ∨ ∃ f f' sc, v.phase = .fetching f ∧ (∀ sc, f.step ≠ .scanning sc) ∧
      f'.generation = f.generation ∧ v'.phase.Scans f' sc ∧
      v'.jobs = v.jobs ++ Clip.jobsOf d f.generation sc.files sc.data := by
  cases h with
  | acceptFiles owed waiting accepted next =>
    refine next.jobs.imp id ?_
    rintro ⟨f', sc, hg, hsc, hj⟩
    exact ⟨_, f', sc, waiting.1, fun sc => by rw [waiting.2]; simp, hg, hsc, hj⟩
  | acceptContents fetches takes hs' next =>
    refine next.jobs.imp id ?_
    rintro ⟨f', sc, hg, hsc, hj⟩
    exact ⟨_, f', sc, fetches.1, fun sc => by rw [fetches.2]; simp, hg, hsc, hj⟩
  | _ => exact .inl rfl

variable {c c' : Clip}

theorem Clip.Late.jobs (h : Clip.Late env d c c') : c'.jobs = c.jobs := by
  cases h with
  | inTime => rfl
  | refused phase late view frame => exact congrArg View.jobs view

theorem Round.spawned (h : Round l s s') : Spawned s s' := by
  cases h with
  | @heard d hd heard move frame =>
    have htaken := s.clip.phase_taken d
    rcases move.jobs with hj | ⟨f, f', sc, hf, hns, hg, hsc, hj⟩
    · exact .none hj
    · exact .some (htaken.symm.trans hf) hns hg hsc hj
  | aside event heard aside => exact .none aside.jobs
  | deadline event up down => exact .none (down.jobs.trans up.jobs)
  | staged event clip => exact .none (by rw [clip]; rfl)

section Extend

variable {d : Dir} {tr : Trace} {e : Entry Session Label} {g : Nat}

theorem Fresh.snoc (h : Fresh d tr g) (hnew : ∀ j ∈ e.post.clip.jobs, j.dir = d → j.generation ≠ g) :
    Fresh d (tr ++ [e]) g := by
  intro j hj
  rw [started_snoc, List.mem_append] at hj
  exact hj.elim (h j) (hnew j)

variable {sc : Scanning}

theorem Underway.snoc (h : Underway d tr g sc) (hnew : ∀ j ∈ e.post.clip.jobs, j.dir = d → j.generation ≠ g) :
    Underway d (tr ++ [e]) g sc := by
  refine ⟨h.listed, h.verdicts, ?_, ?_, ?_⟩
  · intro j hj
    simpa using Or.inl (h.jobs j hj)
  · intro j hj hd hg
    rw [started_snoc, List.mem_append] at hj
    exact hj.elim (fun hj => h.only j hj hd hg) fun hj => absurd hg (hnew j hj hd)
  · intro i v hv
    obtain ⟨j, hj, hd, hg, hi, hr⟩ := h.heard i v hv
    exact ⟨j, by simp [hj], hd, hg, hi, by simp [hr]⟩

theorem Cleared.snoc {data : List Bytes} (h : Cleared d tr g data)
    (hnew : ∀ j ∈ e.post.clip.jobs, j.dir = d → j.generation ≠ g)
    (hrep : ∀ j v, e.label.event.report? = some (j, v) → j ∈ started tr ∧ ∀ v, (j, v) ∉ reported tr) :
    Cleared d (tr ++ [e]) g data := by
  refine ⟨?_, ?_, ?_⟩
  · intro i b hb
    obtain ⟨j, hj, hd, hg, hi, hbytes⟩ := h.scanned i b hb
    exact ⟨j, by simp [hj], hd, hg, hi, hbytes⟩
  · intro j hj hd hg
    rw [started_snoc, List.mem_append] at hj
    rcases hj with hj | hj
    · exact ⟨(h.clean j hj hd hg).1, by simp [(h.clean j hj hd hg).2]⟩
    · exact absurd hg (hnew j hj hd)
  · intro j v hr hd hg
    rw [reported_snoc, List.mem_append] at hr
    rcases hr with hr | hr
    · exact h.unanimous j v hr hd hg
    · obtain ⟨hj, hno⟩ := hrep j v (Option.mem_toList.1 hr)
      exact absurd (h.clean j hj hd hg).2 (hno _)

theorem PhaseOk.snoc {bound bound' : Nat} {p : Phase} (h : PhaseOk d tr bound p) (hb : bound ≤ bound')
    (hnew : ∀ j ∈ e.post.clip.jobs, j.dir ≠ d)
    (hrep : ∀ j v, e.label.event.report? = some (j, v) → j ∈ started tr ∧ ∀ v, (j, v) ∉ reported tr) :
    PhaseOk d (tr ++ [e]) bound' p := by
  have hnew' : ∀ g, ∀ j ∈ e.post.clip.jobs, j.dir = d → j.generation ≠ g :=
    fun g j hj hd => absurd hd (hnew j hj)
  cases p with
  | idle => trivial
  | fetching f =>
    obtain ⟨hg, h⟩ := h
    refine ⟨hg.trans hb, ?_⟩
    cases hs : f.step with
    | descriptor =>
      rw [hs] at h
      exact h.snoc (hnew' _)
    | contents s =>
      rw [hs] at h
      exact ⟨h.1.snoc (hnew' _), h.2⟩
    | scanning s =>
      rw [hs] at h
      exact h.snoc (hnew' _)
  | offered o =>
    obtain ⟨g, hg, hlisted, h⟩ := h
    exact ⟨g, hg.trans hb, hlisted, h.snoc (hnew' g) hrep⟩

/-- The step after contents came in, or after the file list did: still fresh while more is asked
for, and under way once the jobs are started. -/
theorem Next.phaseOk {f : Fetch} {s : Contents} (h : Next env d f s v v') (hfresh : Fresh d tr f.generation)
    (hlisted : Listed s.descriptor s.files s.data) (hb : f.generation ≤ v.generation) (hv : v.jobs = [])
    (hjobs : e.post.clip.jobs = v'.jobs) : PhaseOk d (tr ++ [e]) v'.generation v'.phase := by
  cases h with
  | ask =>
    refine ⟨hb, hfresh.snoc ?_, hlisted⟩
    rw [hjobs]
    show ∀ j ∈ v.jobs, _
    simp [hv]
  | scan =>
    have hj : e.post.clip.jobs = Clip.jobsOf d f.generation s.files s.data := by
      rw [hjobs]
      simp [hv]
    refine ⟨hb, hlisted, by simp, ?_, ?_, ?_⟩
    · intro j hm
      rw [started_snoc, hj]
      exact List.mem_append_right _ hm
    · intro j hm hd hg
      rw [started_snoc, hj, List.mem_append] at hm
      exact hm.elim (fun hm => absurd hg (hfresh j hm hd)) id
    · intro i v hv
      rw [List.getElem?_replicate] at hv
      split at hv <;> cases hv

theorem Underway.store {j : Job} {vd : Verdict} (h : Underway d tr g sc) (hjobs : e.post.clip.jobs = [])
    (hrep : e.label.event.report? = some (j, vd)) (hj : j ∈ started tr) (hd : j.dir = d) (hg : j.generation = g) :
    Underway d (tr ++ [e]) g { sc with verdicts := sc.verdicts.set j.index (some vd) } := by
  have h' := h.snoc (e := e) (by simp [hjobs])
  refine ⟨h'.listed, by simpa using h'.verdicts, h'.jobs, h'.only, ?_⟩
  intro i v hv
  rw [List.getElem?_set] at hv
  split at hv
  · rename_i hi
    split at hv
    · cases hv
      exact ⟨j, by simp [hj], hd, hg, hi, by simp [hrep]⟩
    · cases hv
  · exact h'.heard i v hv

theorem Underway.cleared (h : Underway d tr g sc) (hclean : Clip.objections sc.files sc.verdicts = [])
    (honce : ∀ j v v', (j, v) ∈ reported tr → (j, v') ∈ reported tr → v = v')
    (hknown : ∀ j v, (j, v) ∈ reported tr → j ∈ started tr) : Cleared d tr g sc.data := by
  have hjob : ∀ j ∈ started tr, j.dir = d → j.generation = g →
      sc.data[j.index]? = some j.bytes ∧ (j, .clean) ∈ reported tr := by
    intro j hj hd hg
    obtain ⟨i, file, b, hfile, hb, rfl⟩ := mem_jobsOf.1 (h.only j hj hd hg)
    refine ⟨hb, ?_⟩
    have hi : i < sc.verdicts.length := by
      rw [h.verdicts]
      exact (List.getElem?_eq_some_iff.1 hfile).1
    have hv := clean_of_objections_eq_nil hclean h.verdicts _ (List.getElem_mem hi)
    obtain ⟨j', hj', hd', hg', hi', hr⟩ := h.heard i .clean (by rw [List.getElem?_eq_getElem hi, hv])
    -- The job that reported is the only one of this offer with that index.
    obtain ⟨i', file', b', hfile', hb', rfl⟩ := mem_jobsOf.1 (h.only j' hj' hd' hg')
    obtain rfl : i' = i := hi'
    cases hfile.symm.trans hfile'
    cases hb.symm.trans hb'
    exact hr
  refine ⟨?_, hjob, ?_⟩
  · intro i b hb
    have hi : i < sc.files.length := by
      rw [← h.listed.buffers]
      exact (List.getElem?_eq_some_iff.1 hb).1
    exact ⟨_, h.jobs _ (mem_jobsOf.2 ⟨i, sc.files[i], b, List.getElem?_eq_getElem hi, hb, rfl⟩), rfl, rfl, rfl, rfl⟩
  · intro j v hr hd hg
    exact honce j v .clean hr (hjob j (hknown j v hr) hd hg).2

/-- What a verdict heard about a direction means in the history: its job, which was started for
that direction and has not reported before. -/
def VerdictOf (tr : Trace) (e : Entry Session Label) (d : Dir) (hd : Heard) : Prop :=
  ∀ g i vd, hd = .verdict g i vd →
    ∃ j ∈ started tr, e.label.event.report? = some (j, vd) ∧ j.dir = d ∧ j.generation = g ∧ j.index = i

theorem Move.phaseOk (h : Move env d v hd v') (hok : PhaseOk d tr v.generation v.phase)
    (hbound : ∀ j ∈ started tr, j.generation ≤ v.generation) (hv : v.jobs = []) (hjobs : e.post.clip.jobs = v'.jobs)
    (hverdict : VerdictOf tr e d hd)
    (hrep : ∀ j v, e.label.event.report? = some (j, v) → j ∈ started tr ∧ ∀ v, (j, v) ∉ reported tr)
    (honce : ∀ j v v', (j, v) ∈ reported (tr ++ [e]) → (j, v') ∈ reported (tr ++ [e]) → v = v')
    (hknown : ∀ j v, (j, v) ∈ reported (tr ++ [e]) → j ∈ started (tr ++ [e])) :
    PhaseOk d (tr ++ [e]) v'.generation v'.phase := by
  have hsame : v'.jobs = v.jobs → PhaseOk d (tr ++ [e]) v.generation v.phase := by
    intro hj
    refine hok.snoc le_rfl ?_ hrep
    simp [hjobs, hj, hv]
  cases h with
  | plainList | unhealthyList | refuseFiles | refuseContents | refuseVerdict => trivial
  | swallowList | passList | answerData | forwardData | passData | dropData | answerContents | ignoreContents
    | ignoreVerdict => exact hsame rfl
  | offer =>
    refine ⟨le_rfl, ?_⟩
    intro j hj _
    rw [started_snoc, hjobs] at hj
    have hj' := hbound j (by simpa [hv] using hj)
    exact Nat.ne_of_lt (Nat.lt_succ_of_le hj')
  | acceptFiles owed waiting accepted next =>
    rw [waiting.1] at hok
    obtain ⟨hb, hok⟩ := hok
    rw [waiting.2] at hok
    exact next.phaseOk hok ⟨(Clip.listing_accepted accepted).read, by simp⟩ hb hv hjobs
  | @acceptContents resp f s s' file held _ fetches takes hs' next =>
    rw [fetches.1] at hok
    obtain ⟨hb, hok⟩ := hok
    rw [fetches.2] at hok
    have hlisted : Listed s'.descriptor s'.files s'.data := by
      rw [hs']
      exact ⟨hok.2.read, by simpa using hok.2.buffers⟩
    exact next.phaseOk hok.1 hlisted hb hv hjobs
  | storeVerdict scans more =>
    obtain ⟨j, hj, hr, hd, hg, rfl⟩ := hverdict _ _ _ rfl
    rw [scans.1] at hok
    obtain ⟨hb, hok⟩ := hok
    rw [scans.2] at hok
    exact ⟨hb, hok.store (by simp [hjobs, hv]) hr hj hd hg⟩
  | passVerdict scans all clean =>
    obtain ⟨j, hj, hr, hd, hg, rfl⟩ := hverdict _ _ _ rfl
    rw [scans.1] at hok
    obtain ⟨hb, hok⟩ := hok
    rw [scans.2] at hok
    have hstored := hok.store (e := e) (by simp [hjobs, hv]) hr hj hd hg
    exact ⟨_, hb, ⟨_, hstored.listed⟩, hstored.cleared clean honce hknown⟩

end Extend

theorem Move.generation_le (h : Move env d v hd v') : v.generation ≤ v'.generation := by
  cases h with
  | offer => exact Nat.le_succ _
  | acceptFiles owed waiting accepted next => cases next <;> exact le_rfl
  | acceptContents fetches takes hs' next => cases next <;> exact le_rfl
  | _ => exact le_rfl

theorem Clip.Late.generation (h : Clip.Late env d c c') : c'.generation = c.generation := by
  cases h with
  | inTime => rfl
  | refused phase late view frame => exact congrArg View.generation view

theorem Round.generation_le (h : Round l s s') : s.clip.generation ≤ s'.clip.generation := by
  cases h with
  | heard heard move frame => exact move.generation_le
  | aside event heard aside => exact aside.generation.ge
  | deadline event up down => exact (down.generation.trans up.generation).ge
  | staged event clip => rw [clip]; exact le_rfl

section Step

variable {tr : Trace} {s s' : Session} {l : Label}

variable {j : Job}

theorem Vetted.reports (h : Vetted tr s) (hstep : s.step l = some s') {v : Verdict}
    (hr : l.event.report? = some (j, v)) : j ∈ started tr ∧ ∀ v, (j, v) ∉ reported tr := by
  obtain ⟨hp, _⟩ := Session.step_eq_some hstep
  unfold Event.report? at hr
  split at hr
  · rename_i hev
    cases hr
    rw [hev] at hp
    exact h.running j (of_decide_eq_true hp)
  · cases hr

theorem Vetted.new (h : Vetted tr s) (hs : Spawned s s') (hj : j ∈ s'.clip.jobs) :
    j ∉ started tr ∧ j.generation ≤ s.clip.generation := by
  cases hs with
  | none jobs => rw [jobs] at hj; cases hj
  | @some d f f' sc before unscanned generation after jobs =>
    rw [jobs] at hj
    obtain ⟨i, file, b, -, -, rfl⟩ := mem_jobsOf.1 hj
    have hok := h.phase d
    rw [before] at hok
    obtain ⟨hb, hok⟩ := hok
    refine ⟨fun hmem => ?_, hb⟩
    cases hstep : f.step with
    | descriptor =>
      rw [hstep] at hok
      exact hok _ hmem rfl rfl
    | contents c =>
      rw [hstep] at hok
      exact hok.1 _ hmem rfl rfl
    | scanning sc => exact unscanned sc hstep

theorem Spawned.nodup (hs : Spawned s s') : s'.clip.jobs.Nodup := by
  cases hs with
  | none jobs => rw [jobs]; exact List.nodup_nil
  | some before unscanned generation after jobs => rw [jobs]; exact nodup_jobsOf ..

theorem Spawned.dir_ne (hs : Spawned s s') (hkept : s'.clip.direction d = s.clip.direction d) (hj : j ∈ s'.clip.jobs) :
    j.dir ≠ d := by
  cases hs with
  | none jobs => rw [jobs] at hj; cases hj
  | @some d' f f' sc before unscanned generation after jobs =>
    rw [jobs] at hj
    obtain ⟨i, file, b, -, -, rfl⟩ := mem_jobsOf.1 hj
    rintro rfl
    obtain ⟨hf', hsc⟩ := after
    rw [hkept, before] at hf'
    cases hf'
    exact unscanned sc hsc

theorem Vetted.step (h : Vetted tr s) (hstep : s.step l = some s') : Vetted (tr ++ [⟨s, l, s'⟩]) s' := by
  have hround := Session.round hstep
  have hspawned := hround.spawned
  have hgen := hround.generation_le
  obtain ⟨hp, -, hrunning⟩ := Session.step_eq_some hstep
  have hrep : ∀ j v, l.event.report? = some (j, v) → j ∈ started tr ∧ ∀ v, (j, v) ∉ reported tr :=
    fun j v hr => h.reports hstep hr
  have hknown : ∀ j v, (j, v) ∈ reported (tr ++ [⟨s, l, s'⟩]) → j ∈ started (tr ++ [⟨s, l, s'⟩]) := by
    intro j v hr
    rw [reported_snoc, List.mem_append, Option.mem_toList] at hr
    rw [started_snoc]
    exact List.mem_append_left _ (hr.elim (h.known j v) fun hr => (hrep j v hr).1)
  have honce : ∀ j v v', (j, v) ∈ reported (tr ++ [⟨s, l, s'⟩]) → (j, v') ∈ reported (tr ++ [⟨s, l, s'⟩]) →
      v = v' := by
    intro j v v' hv hv'
    rw [reported_snoc, List.mem_append, Option.mem_toList] at hv hv'
    rcases hv with hv | hv <;> rcases hv' with hv' | hv'
    · exact h.once j v v' hv hv'
    · exact absurd hv ((hrep j v' hv').2 v)
    · exact absurd hv' ((hrep j v hv).2 v')
    · exact (Prod.mk.inj (Option.some.inj (hv.symm.trans hv'))).2
  have hleft : ∀ j ∈ s.left l.event, j ∈ s.running ∧ ∀ v, l.event.report? ≠ some (j, v) := by
    intro j hj
    unfold Session.left at hj
    split at hj
    · rename_i job v hev
      obtain ⟨hne, hj⟩ := h.nodup.mem_erase_iff.1 hj
      refine ⟨hj, fun v' hr => hne ?_⟩
      rw [hev] at hr
      exact (Prod.mk.inj (Option.some.inj hr)).1.symm
    · rename_i hev
      refine ⟨hj, fun v' hr => ?_⟩
      unfold Event.report? at hr
      split at hr
      · exact hev _ _ ‹_›
      · cases hr
  refine ⟨fun d => ?_, ?_, ?_, ?_, hknown, honce⟩
  · rcases hround.seen d with ⟨heard, move⟩ | ⟨event, phase, after⟩ | ⟨quiet, same⟩
    · have hv : s.clip.taken.view d = { s.clip.view d with out := [], reports := [], jobs := [] } := by
        cases d <;> rfl
      refine move.phaseOk (e := ⟨s, l, s'⟩) ?_ ?_ (by rw [hv]) rfl ?_ hrep honce hknown
      · rw [hv]; exact h.phase d
      · rw [hv]; exact h.bound
      · rintro g i vd rfl
        have hsaid := Event.said heard
        generalize hev : l.event = ev at hsaid
        cases hsaid with
        | pdu carries => exact carries.elim
        | @verdict job v dir heard =>
          cases heard
          exact ⟨job, (hrep job vd (by rw [hev]; rfl)).1, rfl, dir, rfl, rfl⟩
    · rw [after]
      trivial
    · rw [same]
      exact (h.phase d).snoc hgen (fun j hj => hspawned.dir_ne same hj) hrep
  · intro j hj
    rw [started_snoc, List.mem_append] at hj
    exact (hj.elim (h.bound j) fun hj => (h.new hspawned hj).2).trans hgen
  · intro j hj
    rw [hrunning, List.mem_append] at hj
    simp only [started_snoc, reported_snoc, List.mem_append, Option.mem_toList, not_or]
    rcases hj with hj | hj
    · obtain ⟨hj, hno⟩ := hleft j hj
      exact ⟨.inl (h.running j hj).1, fun v => ⟨(h.running j hj).2 v, hno v⟩⟩
    · have hnew := (h.new hspawned hj).1
      exact ⟨.inr hj, fun v => ⟨fun hr => hnew (h.known j v hr), fun hr => hnew (hrep j v hr).1⟩⟩
  · rw [hrunning, List.nodup_append]
    refine ⟨?_, hspawned.nodup, ?_⟩
    · unfold Session.left
      split
      · exact h.nodup.erase _
      · exact h.nodup
    · rintro j hj _ hj' rfl
      exact (h.new hspawned hj').1 (h.running j (hleft j hj).1).1

end Step

theorem Vetted.start (staging : Staging) : Vetted [] (Session.start staging) := by
  refine ⟨fun d => ?_, ?_, ?_, List.nodup_nil, ?_, ?_⟩
  · cases d <;> trivial
  all_goals simp [Session.start]

theorem vetted {staging : Staging} {tr : Trace} (h : SessionRun staging tr s) : Vetted tr s :=
  h.history (.start staging) fun _ _ _ _ _ hv hstep => hv.step hstep

/-! ## What is written -/

def NoContents (b : Body) : Prop := ∃ p, b.pdu = some p ∧ ∀ r, p ≠ .fileContentsResponse r

theorem Clip.contentsAnswer_cases (p : Phase) (req : FileContentsRequest) :
    (Clip.contentsAnswer p req).isError = true ∨
      ∃ (o : Offer) (i : Nat) (b : Bytes), p = .offered o ∧ o.data[i]? = some b ∧
          Clip.contentsAnswer p req = Clip.fileAnswer req b := by
  cases hb : Clip.servedFile p req.index with
  | none => exact .inl (by simp [Clip.contentsAnswer, hb, FileContentsResponse.newError])
  | some b =>
    right
    unfold Clip.servedFile at hb
    split at hb
    · rename_i o
      split at hb
      · exact ⟨o, _, b, rfl, hb, by simp [Clip.contentsAnswer, Clip.servedFile, *]⟩
      · cases hb
    · cases hb

/-- A response gives the length of a byte string, or a part of it. -/
def PartOf (resp : FileContentsResponse) (b : Bytes) : Prop :=
  resp = .newSizeResponse resp.streamId b.length ∨
    ∃ start stop, resp = .newDataResponse resp.streamId ((b.take stop).drop start)

theorem Clip.fileAnswer_partOf (req : FileContentsRequest) (b : Bytes) : PartOf (Clip.fileAnswer req b) b := by
  unfold Clip.fileAnswer
  split
  · exact .inl rfl
  · exact .inr ⟨_, _, rfl⟩

theorem Round.contents (h : Round l s s') (hlist : ListKept s) :
    ∀ em ∈ s'.clip.out, NoContents em.body ∨
      ∃ d req us, em = ⟨d.receiver, .own (.fileContentsResponse
        (Clip.contentsAnswer (s.clip.direction d).phase req)) us⟩ := by
  intro em hem
  cases h.written em hem with
  | about heard writes =>
    cases writes with
    | contentsAnswered => exact .inr ⟨_, _, _, rfl⟩
    | offered fetching =>
      obtain ⟨l, hl⟩ := hlist _ _ fetching
      exact .inl ⟨_, hl, by simp⟩
    | list event pdu | listAnswer event pdu | dataForwarded event pdu | dataPassed event pdu =>
      exact .inl ⟨_, pdu, by simp⟩
    | _ => exact .inl ⟨_, rfl, by simp⟩
  | aside pdu other =>
    refine .inl ⟨_, pdu, ?_⟩
    rintro r rfl
    cases other.2
  | late body => exact .inl ⟨_, by rw [body]; rfl, by simp⟩

/-! ## Store and forward -/

/-- What may be written, given what was scanned before: file contents that arrived from an end are
not passed on, and contents the proxy gives out are the length or a part of one buffer of an
offer, each of whose listed files has a buffer that was scanned as it stands and called clean. -/
structure Stored (tr : Trace) (em : Emission) : Prop where
  held : ∀ w, em.body = .passed w → ∀ resp, ClipboardPdu.ofBytes w.pdu ≠ some (.fileContentsResponse resp)
  served : ∀ resp, em.body.pdu = some (.fileContentsResponse resp) → resp.isError = false →
    ∃ (d : Dir) (g : Nat) (descriptor : Bytes) (files : List FileDescriptor) (data : List Bytes) (i : Nat)
      (b : Bytes), em.side = d.receiver ∧ Listed descriptor files data ∧ Cleared d tr g data ∧
        data[i]? = some b ∧ PartOf resp b

/-- Store and forward: whatever a session's proxy writes, after any run of it, holds no contents
but those of cleared offers. -/
theorem store_and_forward {staging : Staging} {tr : Trace} {s s' : Session} {l : Label}
    (hrun : SessionRun staging tr s) (hstep : s.step l = some s') : ∀ em ∈ s'.clip.out, Stored tr em := by
  intro em hem
  rcases (Session.round hstep).contents (listKept hrun) em hem with ⟨p, hp, hno⟩ | ⟨d, req, us, rfl⟩
  · refine ⟨?_, ?_⟩
    · intro w hw resp hresp
      rw [hw] at hp
      exact hno resp (Option.some.inj (hp.symm.trans hresp))
    · intro resp hresp
      exact absurd (Option.some.inj (hp.symm.trans hresp)) (hno resp)
  · refine ⟨by simp, ?_⟩
    intro resp hresp herr
    cases hresp
    rcases Clip.contentsAnswer_cases (s.clip.direction d).phase req with herr' | ⟨o, i, b, ho, hb, hans⟩
    · rw [herr] at herr'
      cases herr'
    · have hok := (vetted hrun).phase d
      rw [ho] at hok
      obtain ⟨g, -, ⟨files, hlisted⟩, hcleared⟩ := hok
      refine ⟨d, g, o.descriptor, files, o.data, i, b, rfl, hlisted, hcleared, hb, ?_⟩
      rw [hans]
      exact Clip.fileAnswer_partOf req b

/-- The client offers one file of three bytes, sends it when asked, and the scan of it is clean. -/
def oneFile : List Event :=
  [offerFile, listFile 'a' 3, .pdu .client (sent (.fileContentsResponse (.newDataResponse firstStream [1, 2, 3]))),
    .verdict ⟨.upload, 1, 0, ['a'], [1, 2, 3]⟩ .clean]

def askForTwo : Event := .pdu .server (sent (.fileContentsRequest ⟨7, 0, contentsRange, 1, 2, none⟩))

/-- The offer of one file is served from the scanned copy. -/
theorem store_and_forward_oneFile : ∃ (s s' : Session) (em : Emission),
    SessionRun ⟨0, 100⟩ (scripted ⟨0, 100⟩ oneFile) s ∧ s.step ⟨scriptEnv, askForTwo⟩ = some s' ∧
      em ∈ s'.clip.out ∧ em.body.pdu = some (.fileContentsResponse ⟨false, 7, [2, 3]⟩) ∧
      Stored (scripted ⟨0, 100⟩ oneFile) em := by
  obtain ⟨s, s', hrun, hstep, hout⟩ := scripted_run ⟨0, 100⟩ oneFile askForTwo
    (fun s => s.clip.out.any fun em => em.body.pdu = some (.fileContentsResponse ⟨false, 7, [2, 3]⟩))
    (by decide +kernel)
  obtain ⟨em, hem, hpdu⟩ := List.any_eq_true.1 hout
  exact ⟨s, s', em, hrun, hstep, hem, of_decide_eq_true hpdu, store_and_forward hrun hstep em hem⟩

end WebAccess.Scan
