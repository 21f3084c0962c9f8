/-
Folders and paths. An offer that lists a directory is refused before any byte moves. The check of
names that lie in a directory is made on `relative_path`, which the decoder of the file list never
fills in, so a name with a separator in it is not looked at; and a file list that is passed on as
any other clipboard data, because the receiver asked for it while no offer is in progress, is not
looked at either. Where neither happens, no folder and no path gets through.
-/
import WebAccess.Scan.Owed

namespace WebAccess.Scan

open Codec Wire Transition

/-! ## Flat file lists -/

def hasSeparator (f : FileDescriptor) : Bool := f.name.contains '\\' || f.name.contains '/'

/-- No entry is a directory or lies in one. -/
def Flat (files : List FileDescriptor) : Prop := ∀ f ∈ files, f.isDirectory = false ∧ hasSeparator f = false

instance (files : List FileDescriptor) : Decidable (Flat files) :=
  inferInstanceAs (Decidable (∀ f ∈ files, f.isDirectory = false ∧ hasSeparator f = false))

def Phase.FlatList (p : Phase) : Prop :=
  p.listed = true → ∃ resp files, p.Uses resp ∧ resp.toFileList = some files ∧ Flat files

theorem Phase.FlatList.idle : Phase.FlatList .idle := by
  intro h
  cases h

section Rounds

variable {env : Env} {d : Dir} {v v' : View} {hd : Heard}

theorem Move.flatList (h : Move env d v hd v') (hflat : v.phase.FlatList)
    (hnew : ∀ resp w f rest files staging, hd = .dataAnswer resp w → v.phase.Waiting f →
      v.dataOwed = .proxy :: rest → Clip.Accepted resp env.maxFileBytes v.staging files staging → Flat files) :
    v'.phase.FlatList := by
  cases h with
  | plainList | unhealthyList | refuseFiles | refuseContents | refuseVerdict => exact .idle
  | swallowList | passList | answerData | forwardData | passData | dropData | answerContents | ignoreContents
    | ignoreVerdict => exact hflat
  | offer =>
    intro hl
    cases hl
  | acceptFiles owed waiting accepted next =>
    have hacc := Clip.listing_accepted accepted
    exact fun _ => ⟨_, _, next.uses ⟨rfl, hacc.read, rfl⟩, hacc.read, hnew _ _ _ _ _ _ rfl waiting owed hacc⟩
  | acceptContents fetches takes hs' next =>
    obtain ⟨resp, files, hu, hread, hfl⟩ := hflat fetches.listed
    refine fun _ => ⟨resp, files, next.uses ?_, hread, hfl⟩
    rw [hs']
    exact fetches.uses.1 hu
  | storeVerdict scans more =>
    obtain ⟨resp, files, hu, hread, hfl⟩ := hflat scans.listed
    exact fun _ => ⟨resp, files, scans.uses.1 hu, hread, hfl⟩
  | passVerdict scans =>
    obtain ⟨resp, files, hu, hread, hfl⟩ := hflat scans.listed
    exact fun _ => ⟨resp, files, ⟨_, scans.uses.1 hu⟩, hread, hfl⟩

/-- A list with a folder or a path in it that is read as the file list of an offer is refused, when
those that are accepted are flat. -/
theorem Move.refused_of_folder {resp : FormatDataResponse} {w : Whole} {f : Fetch} {rest : List Owner}
    {files : List FileDescriptor} (h : Move env d v (.dataAnswer resp w) v') (hv : v.out = [])
    (hwait : v.phase.Waiting f) (howed : v.dataOwed = .proxy :: rest) (hread : resp.toFileList = some files)
    (hfolder : ¬ Flat files)
    (hnew : ∀ files staging, Clip.Accepted resp env.maxFileBytes v.staging files staging → Flat files) :
    v'.phase = .idle ∧ (∃ fs reason, .refused d fs reason ∈ v'.reports) ∧
      ∀ em ∈ v'.out, ∀ req us, em.body ≠ .own (.fileContentsRequest req) us := by
  cases h with
  | passData owed =>
    rw [howed] at owed
    exact absurd rfl owed
  | dropData owed waiting => exact absurd hwait (waiting f)
  | refuseFiles owed waiting refused =>
    refine ⟨rfl, ⟨_, _, List.mem_concat_self⟩, ?_⟩
    simp [View.refused, hv]
  | acceptFiles owed waiting accepted next =>
    have hacc := Clip.listing_accepted accepted
    cases hread.symm.trans hacc.read
    exact absurd (hnew _ _ hacc) hfolder

end Rounds

/-! ## Nothing but flat lists -/

/-- A file list that is refused for a reason other than a path in it. -/
def RefusedAnyway (resp : FormatDataResponse) (limit : Option Nat) (staging : Staging)
    (files : List FileDescriptor) : Prop :=
  resp.isError = true ∨
    (∃ f ∈ files, f.isDirectory = true ∨ f.fileSize = none ∨ ∃ n ∈ limit, n < f.size) ∨
    staging.reserve ((files.map FileDescriptor.size).sum % 2 ^ 64) = none

theorem RefusedAnyway.not_accepted {resp : FormatDataResponse} {limit : Option Nat} {staging staging' : Staging}
    {files : List FileDescriptor} (h : RefusedAnyway resp limit staging files)
    (ha : Clip.Accepted resp limit staging files staging') : False := by
  rcases h with herr | ⟨f, hf, hdir | hsize | ⟨n, hn, hlt⟩⟩ | hres
  · rw [ha.ok] at herr
    cases herr
  · rw [(ha.flat f hf).2] at hdir
    cases hdir
  · have hsized := ha.sized f hf
    rw [hsize] at hsized
    cases hsized
  · exact absurd (ha.limited n hn f hf) (Nat.not_le_of_lt hlt)
  · cases hres.symm.trans ha.reserved

/-- A list that is read as the file list of an offer and has a path in it is refused anyway, and one
that is passed on to the receiver is flat. -/
structure NoPaths (d : Dir) (e : Entry Session Label) : Prop where
  read : ∀ resp w f rest files, e.label.event.about d = some (.dataAnswer resp w) →
    (e.pre.clip.direction d).phase.Waiting f → (e.pre.clip.direction d).dataOwed = .proxy :: rest →
    resp.toFileList = some files → (∃ x ∈ files, hasSeparator x = true) →
    RefusedAnyway resp e.label.env.maxFileBytes e.pre.clip.staging files
  passed : ∀ resp w files, e.label.event.about d = some (.dataAnswer resp w) →
    (e.pre.clip.direction d).dataOwed.head? ≠ some .proxy → resp.toFileList = some files → Flat files

/-- Folders and paths are refused before any byte moves: an offer that lists one is refused as its
list is read, contents are asked for only of flat lists, and a receiver is given only flat lists. -/
structure FlatOnly (d : Dir) (e : Entry Session Label) : Prop where
  refused : ∀ resp w f rest files, e.label.event.about d = some (.dataAnswer resp w) →
    (e.pre.clip.direction d).phase.Waiting f → (e.pre.clip.direction d).dataOwed = .proxy :: rest →
    resp.toFileList = some files → ¬ Flat files →
    (e.post.clip.direction d).phase = .idle ∧ (∃ fs reason, .refused d fs reason ∈ e.post.clip.reports) ∧
      ∀ em ∈ e.post.clip.out, ∀ req us, em.body ≠ .own (.fileContentsRequest req) us
  requests : ∀ em ∈ e.post.clip.out, ∀ req us, em.side = d.sender →
    em.body = .own (.fileContentsRequest req) us →
    ∃ f c, (e.post.clip.direction d).phase.Fetches f c ∧ packedFileList.run' c.descriptor = some c.files ∧
      Flat c.files
  given : ∀ em ∈ e.post.clip.out, ∀ a files, em.side = d.receiver →
    em.body.pdu = some (.formatDataResponse a) → a.toFileList = some files → Flat files

section Runs

variable {staging : Staging} {d : Dir} {tr : Trace} {s s' : Session} {l : Label}

theorem NoPaths.flat (h : NoPaths d ⟨s, l, s'⟩) {resp : FormatDataResponse} {w : Whole} {f : Fetch}
    {rest : List Owner} {files : List FileDescriptor} {staging' : Staging}
    (habout : l.event.about d = some (.dataAnswer resp w)) (hwait : (s.clip.direction d).phase.Waiting f)
    (howed : (s.clip.direction d).dataOwed = .proxy :: rest)
    (hacc : Clip.Accepted resp l.env.maxFileBytes s.clip.staging files staging') : Flat files := by
  intro x hx
  refine ⟨(hacc.flat x hx).2, Bool.eq_false_iff.2 fun hsep => ?_⟩
  exact (h.read resp w f rest files habout hwait howed hacc.read ⟨x, hx, hsep⟩).not_accepted hacc

theorem Round.flatList (h : Round l s s') (hcond : NoPaths d ⟨s, l, s'⟩)
    (hflat : (s.clip.direction d).phase.FlatList) : (s'.clip.direction d).phase.FlatList := by
  have hphase := s.clip.phase_taken d
  have howed := s.clip.dataOwed_taken d
  rcases h.seen d with ⟨heard, move⟩ | ⟨event, phase, after⟩ | ⟨quiet, same⟩
  · refine move.flatList (by rw [hphase]; exact hflat) ?_
    rintro resp w f rest files staging rfl hwait hq hacc
    rw [hphase] at hwait
    rw [howed] at hq
    exact hcond.flat (Event.about_eq heard) hwait hq hacc
  · rw [after]
    exact .idle
  · rw [same]
    exact hflat

theorem flatList (hrun : SessionRun staging tr s) (hcond : ∀ e ∈ tr, NoPaths d e) :
    (s.clip.direction d).phase.FlatList := by
  refine hrun.history ?_ ?_ hcond
  · intro _
    have hidle : ((Session.start staging).clip.direction d).phase = .idle := by cases d <;> rfl
    rw [hidle]
    exact .idle
  · intro tr s l s' _ ih hstep hcond
    exact (Session.round hstep).flatList (hcond _ (by simp)) (ih fun e he => hcond e (List.mem_append_left _ he))

theorem Round.fetches_of_request (h : Round l s s') :
    ∀ em ∈ s'.clip.out, ∀ req us, em.side = d.sender → em.body = .own (.fileContentsRequest req) us →
      ∃ f c, (s'.clip.direction d).phase.Fetches f c := by
  intro em hem req us hside hb
  cases h.written em hem with
  | @about d' hd heard writes =>
    cases writes with
    | contentsRequest fetches =>
      obtain rfl : d' = d := by cases d <;> cases d' <;> first | rfl | cases hside
      exact ⟨_, _, fetches⟩
    | _ => cases hb
  | aside pdu other =>
    rw [hb] at pdu
    cases pdu
    cases other.1
  | late body => cases hb.symm.trans body

theorem FlatOnly.step (hround : Round l s s') (hlist : ListKept s) (hflat : (s.clip.direction d).phase.FlatList)
    (hcond : NoPaths d ⟨s, l, s'⟩) : FlatOnly d ⟨s, l, s'⟩ := by
  have hphase := s.clip.phase_taken d
  have howed := s.clip.dataOwed_taken d
  refine ⟨?_, ?_, ?_⟩
  · intro resp w f rest files habout hwait hq hread hfolder
    rcases hround.seen d with ⟨heard, move⟩ | ⟨event, phase, after⟩ | ⟨quiet, same⟩
    · cases Option.some.inj ((Event.about_eq heard).symm.trans habout)
      refine move.refused_of_folder rfl (by rw [hphase]; exact hwait) (by rw [howed]; exact hq) hread hfolder ?_
      exact fun files staging hacc => hcond.flat habout hwait hq hacc
    · have hheard := Event.heard_of_about habout
      rw [event] at hheard
      cases hheard
    · exact absurd (Event.heard_of_about habout) (quiet _)
  · intro em hem req us hside hb
    obtain ⟨f, c, hc⟩ := hround.fetches_of_request em hem req us hside hb
    obtain ⟨resp, files, hu, hread, hfl⟩ := hround.flatList hcond hflat hc.listed
    have hbasis := hc.uses.1 hu
    have hfiles := hbasis.read
    cases hfiles.symm.trans hread
    exact ⟨f, c, hc, hbasis.data ▸ hfiles, hfl⟩
  · intro em hem a files hside hpdu hread
    have hgives := hround.gives hlist d em hem a hside hpdu
    generalize em.body = b at hgives
    cases hgives with
    | own heard answer =>
      rcases Clip.dataAnswer_cases answer with rfl | ⟨o, ho, rfl⟩
      · cases hread
      · rw [ho] at hflat
        obtain ⟨resp, files', ⟨fs, hbasis⟩, hread', hfl⟩ := hflat rfl
        have hsame : packedFileList.run' o.descriptor = some files' := hbasis.data ▸ hread'
        cases hsame.symm.trans hread
        exact hfl
    | passed heard head => exact hcond.passed _ _ _ heard head hread

/-- Folders and paths are refused before any byte moves, in every run in which a list with a path
that is read as a file list is refused anyway and a list that is passed on is flat. -/
theorem folders_refused (hrun : SessionRun staging tr s) (hcond : ∀ e ∈ tr, NoPaths d e) : ∀ e ∈ tr, FlatOnly d e := by
  intro e he
  obtain ⟨tr₁, tr₂, rfl, hbefore⟩ := hrun.exists_before he
  have hstep := hrun.step_of_mem he
  refine .step (Session.round hstep) (listKept hbefore) ?_ (hcond e he)
  exact flatList hbefore fun e' he' => hcond e' (List.mem_append_left _ he')

end Runs

/-- The client's answer to a request for the file list: one entry. -/
def listEntry (attributes : Option Nat) (name : Text) : Event :=
  .pdu .client (sent (.formatDataResponse
    (.newData ((encodeFileList [⟨attributes, none, some 3, name, none⟩]).getD []))))

theorem noPaths_of_all {d : Dir} {tr : Trace}
    (h : (tr.all fun e => match e.label.event.about d with
      | some (.dataAnswer resp _) => match resp.toFileList with
        | some files => files.all (fun f => !hasSeparator f) &&
            (decide ((e.pre.clip.direction d).dataOwed.head? = some .proxy) || decide (Flat files))
        | none => true
      | _ => true) = true) : ∀ e ∈ tr, NoPaths d e := by
  intro e he
  have he := List.all_eq_true.1 h e he
  refine ⟨?_, ?_⟩
  · rintro resp w f rest files habout - - hread ⟨x, hx, hsep⟩
    simp only [habout, hread, Bool.and_eq_true] at he
    have hno := List.all_eq_true.1 he.1 x hx
    simp [hsep] at hno
  · intro resp w files habout hhead hread
    simp only [habout, hread, Bool.and_eq_true, Bool.or_eq_true, decide_eq_true_iff] at he
    exact he.2.resolve_left hhead

def offerDirectory : List Event := [offerFile, listEntry (some attributeDirectory) ['d']]

/-- A directory is offered. -/
theorem folders_refused_directory : (∃ s, SessionRun ⟨0, 100⟩ (scripted ⟨0, 100⟩ offerDirectory) s) ∧
    ∀ e ∈ scripted ⟨0, 100⟩ offerDirectory, FlatOnly .upload e := by
  obtain ⟨s, hrun, -⟩ := scripted_state ⟨0, 100⟩ offerDirectory (fun _ => true) (by decide +kernel)
  exact ⟨⟨s, hrun⟩, folders_refused hrun (noPaths_of_all (by decide +kernel))⟩

def Body.asksContents : Body → Bool
  | .own (.fileContentsRequest _) _ => true
  | _ => false

def Body.gives (files : List FileDescriptor) (b : Body) : Bool :=
  match b.pdu with
  | some (.formatDataResponse a) => decide (a.toFileList = some files)
  | _ => false

theorem path_fetched : ∃ s s', SessionRun ⟨0, 100⟩ (scripted ⟨0, 100⟩ [offerFile]) s ∧
    s.step ⟨scriptEnv, listEntry none ['d', '\\', 'a']⟩ = some s' ∧
    ¬ FlatOnly .upload ⟨s, ⟨scriptEnv, listEntry none ['d', '\\', 'a']⟩, s'⟩ := by
  obtain ⟨s, s', hrun, hstep, hP⟩ := scripted_run ⟨0, 100⟩ [offerFile] (listEntry none ['d', '\\', 'a'])
    (fun s => decide (Clip.fetchFiles (s.clip.direction .upload).phase =
        [⟨none, none, some 3, ['d', '\\', 'a'], none⟩]) &&
      s.clip.out.any fun em => em.side = .client && em.body.asksContents) (by decide +kernel)
  refine ⟨s, s', hrun, hstep, fun hflat => ?_⟩
  rw [Bool.and_eq_true, decide_eq_true_iff] at hP
  obtain ⟨hfiles, hout⟩ := hP
  obtain ⟨em, hem, hreq⟩ := List.any_eq_true.1 hout
  rw [Bool.and_eq_true, decide_eq_true_iff] at hreq
  obtain ⟨hside, hreq⟩ := hreq
  unfold Body.asksContents at hreq
  split at hreq
  · rename_i req us hb
    obtain ⟨f, c, hc, -, hfl⟩ := hflat.requests em hem req us hside hb
    have hc' : Clip.fetchFiles (s'.clip.direction .upload).phase = c.files := hc.fetchFiles
    rw [← hc', hfiles] at hfl
    exact absurd hfl (by decide)
  · cases hreq

/-- The server asks for the client's clipboard while no offer is in progress and the client answers
with a list of directories: it is passed on. -/
theorem directory_passed : ∃ s s',
    SessionRun ⟨0, 100⟩ (scripted ⟨0, 100⟩ [.pdu .server (sent (.formatDataRequest ⟨0xC0A1⟩))]) s ∧
    s.step ⟨scriptEnv, listEntry (some attributeDirectory) ['d']⟩ = some s' ∧
    ¬ FlatOnly .upload ⟨s, ⟨scriptEnv, listEntry (some attributeDirectory) ['d']⟩, s'⟩ := by
  obtain ⟨s, s', hrun, hstep, hP⟩ := scripted_run ⟨0, 100⟩ [.pdu .server (sent (.formatDataRequest ⟨0xC0A1⟩))]
    (listEntry (some attributeDirectory) ['d'])
    (fun s => s.clip.out.any fun em => em.side = .server &&
      em.body.gives [⟨some attributeDirectory, none, some 3, ['d'], none⟩]) (by decide +kernel)
  refine ⟨s, s', hrun, hstep, fun hflat => ?_⟩
  obtain ⟨em, hem, hgiven⟩ := List.any_eq_true.1 hP
  rw [Bool.and_eq_true, decide_eq_true_iff] at hgiven
  obtain ⟨hside, hgiven⟩ := hgiven
  unfold Body.gives at hgiven
  split at hgiven
  · rename_i a ha
    exact absurd (hflat.given em hem a _ hside ha (of_decide_eq_true hgiven)) (by decide)
  · cases hgiven

/-- A path gets through as part of an offer, and a directory as data that is passed on. -/
theorem folders_let_through :
    (∃ s s', SessionRun ⟨0, 100⟩ (scripted ⟨0, 100⟩ [offerFile]) s ∧
      s.step ⟨scriptEnv, listEntry none ['d', '\\', 'a']⟩ = some s' ∧
      ¬ FlatOnly .upload ⟨s, ⟨scriptEnv, listEntry none ['d', '\\', 'a']⟩, s'⟩) ∧
    ∃ s s', SessionRun ⟨0, 100⟩ (scripted ⟨0, 100⟩ [.pdu .server (sent (.formatDataRequest ⟨0xC0A1⟩))]) s ∧
      s.step ⟨scriptEnv, listEntry (some attributeDirectory) ['d']⟩ = some s' ∧
      ¬ FlatOnly .upload ⟨s, ⟨scriptEnv, listEntry (some attributeDirectory) ['d']⟩, s'⟩ :=
  ⟨path_fetched, directory_passed⟩

end WebAccess.Scan
