/-
How an offer of files ends. What a round does to an offer is said once (`Told`): the list that makes
it, the descriptor and the contents that are accepted, the verdicts, and the ways it ends, each with
what is reported about the direction and which Format Lists its receiver is given. Between one
Format List of the sender and its next one there is one offer at most, so its life is read off these
rounds.
-/
import WebAccess.Scan.Descriptor

namespace WebAccess.Scan

open Codec Wire Transition

/-! ## What a round tells -/

def Body.isList (b : Body) : Bool :=
  match b.pdu with
  | some (.formatList _) => true
  | _ => false

/-- What the last input made the proxy report about a direction. -/
def Clip.reportsOf (c : Clip) (d : Dir) : List Report := c.reports.filter fun r => r.dir = d

/-- The Format Lists the last input made it give to the receiver of a direction. -/
def Clip.listsTo (c : Clip) (d : Dir) : List Body :=
  (c.out.filter fun em => em.side = d.receiver ∧ em.body.isList).map Emission.body

def offersFiles (long : Bool) (list : FormatList) : Option Nat := fileListFormat ((list.getFormats long).getD [])

/-- The files of a fetch that has a file list, and what it has of their contents. -/
def Step.holds : Step → Option (List FileDescriptor × List Bytes)
  | .descriptor => none
  | .contents s => some (s.files, s.data)
  | .scanning s => some (s.files, s.data)

/-- How long a step waits: for an answer of the sender, or for the scanner as well. -/
def Step.wait (timeout : Nat) : Step → Nat
  | .descriptor | .contents _ => answerTime
  | .scanning _ => timeout + answerTime

/-- A fetch that has just come to hold this much of the contents of these files. -/
structure Fetch.Goes (env : Env) (files : List FileDescriptor) (data : List Bytes) (f : Fetch) : Prop where
  holds : f.step.holds = some (files, data)
  deadline : f.deadline = env.now + f.step.wait env.scanTimeout

/-- What a round is for a direction: what it heard about it, the phase before and after, what was
reported about it and which lists its receiver was given. -/
inductive Told (env : Env) (d : Dir) (long : Bool) (hd : Option Heard) (p : Phase) :
    Phase → List Report → List Body → Prop
  | plain {list : FormatList} {whole : Whole} (heard : hd = some (.list list whole))
      (format : offersFiles long list = none) : Told env d long hd p .idle [] [.passed whole]
  | unhealthy {list : FormatList} {whole : Whole} {fileList : Nat} {reason : String} {us : List Bytes}
      (heard : hd = some (.list list whole)) (format : offersFiles long list = some fileList) :
      Told env d long hd p .idle [.refused d [] reason] [.own (.formatList .newUnicodeEmpty) us]
  | offer {list : FormatList} {whole : Whole} {generation fileList : Nat} (heard : hd = some (.list list whole))
      (format : offersFiles long list = some fileList) :
      Told env d long hd p (.fetching ⟨generation, whole, fileList, .descriptor, env.now + answerTime, none⟩) [] []
  | listed {resp : FormatDataResponse} {whole : Whole} {f f' : Fetch} {files : List FileDescriptor}
      {staging staging' : Staging} (heard : hd = some (.dataAnswer resp whole)) (waiting : p.Waiting f)
      (accepted : Clip.Accepted resp env.maxFileBytes staging files staging') (list : f'.list = f.list)
      (goes : f'.Goes env files (files.map fun _ => [])) :
      Told env d long hd p (.fetching f') [.started d (filesOf files)] []
  | fetched {resp : FileContentsResponse} {f f' : Fetch} {s : Contents} {file : FileDescriptor} {held : Bytes}
      (heard : hd = some (.contentsAnswer resp)) (fetches : p.Fetches f s) (takes : s.Takes resp file held)
      (list : f'.list = f.list)
      (goes : f'.Goes env s.files (s.data.set s.index (held ++ resp.data))) :
      Told env d long hd p (.fetching f') [] []
  | verdict {generation index : Nat} {v : Verdict} {f : Fetch} {s : Scanning} {verdicts : List (Option Verdict)}
      (heard : hd = some (.verdict generation index v)) (scans : p.Scans f s) :
      Told env d long hd p (.fetching { f with step := .scanning { s with verdicts } }) [] []
  | passed {generation index : Nat} {v : Verdict} {f : Fetch} {s : Scanning} {o : Offer}
      (heard : hd = some (.verdict generation index v)) (scans : p.Scans f s) :
      Told env d long hd p (.offered o) [.passed d (filesOf s.files)] [.passed f.list]
  | refused {f : Fetch} {files : List FileDescriptor} {reason : String} {us : List Bytes}
      (other : ∀ l w, hd ≠ some (.list l w)) (fetching : p = .fetching f) :
      Told env d long hd p .idle [.refused d (filesOf files) reason] [.own (.formatList .newUnicodeEmpty) us]
  | quiet (other : ∀ l w, hd ≠ some (.list l w))
      (ignored : ∀ resp, hd = some (.contentsAnswer resp) → ∀ f s, p.Fetches f s → resp.streamId ≠ s.stream) :
      Told env d long hd p p [] []

variable {env : Env} {d : Dir} {long : Bool} {p p' : Phase} {rs : List Report} {ls : List Body} {hd : Option Heard}
  {v v' : View}

variable {list : FormatList} {whole : Whole} {f : Fetch} {s : Contents} {ev : Event}

theorem Told.of_offer {fileList : Nat} (h : Told env d long (some (.list list whole)) p p' rs ls)
    (hformat : offersFiles long list = some fileList) :
    (∃ reason us, p' = .idle ∧ rs = [.refused d [] reason] ∧ ls = [.own (.formatList .newUnicodeEmpty) us]) ∨
      ∃ f, p' = .fetching f ∧ f.list = whole ∧ f.step = .descriptor ∧ f.deadline = env.now + answerTime ∧
        rs = [] ∧ ls = [] := by
  cases h with
  | plain heard format =>
    cases heard
    rw [hformat] at format
    cases format
  | unhealthy => exact .inl ⟨_, _, rfl, rfl, rfl⟩
  | offer heard format =>
    cases heard
    exact .inr ⟨_, rfl, rfl, rfl, rfl, rfl, rfl⟩
  | listed heard | fetched heard | verdict heard | passed heard => cases heard
  | refused other | quiet other => exact absurd rfl (other _ _)

theorem Told.of_plain (h : Told env d long (some (.list list whole)) p p' rs ls)
    (hformat : offersFiles long list = none) : p' = .idle ∧ rs = [] ∧ ls = [.passed whole] := by
  cases h with
  | plain heard format =>
    cases heard
    exact ⟨rfl, rfl, rfl⟩
  | unhealthy heard format | offer heard format =>
    cases heard
    rw [hformat] at format
    cases format
  | listed heard | fetched heard | verdict heard | passed heard => cases heard
  | refused other | quiet other => exact absurd rfl (other _ _)

theorem Told.of_none (h : Told env d long none p p' rs ls) :
    p' = p ∧ rs = [] ∧ ls = [] ∨ ∃ f us, p = .fetching f ∧ p' = .idle ∧
      ls = [.own (.formatList .newUnicodeEmpty) us] := by
  cases h with
  | refused other fetching => exact .inr ⟨_, _, fetching, rfl, rfl⟩
  | quiet => exact .inl ⟨rfl, rfl, rfl⟩
  | plain heard | unhealthy heard | offer heard | listed heard | fetched heard | verdict heard | passed heard =>
    cases heard

theorem Told.limited {files : List (Text × Nat)} (h : Told env d long hd p p' rs ls) (hr : .started d files ∈ rs) :
    ∀ n ∈ env.maxFileBytes, ∀ f ∈ files, f.2 ≤ n := by
  cases h with
  | listed heard waiting accepted =>
    cases List.mem_singleton.1 hr
    intro n hn f hf
    obtain ⟨file, hfile, rfl⟩ := List.mem_map.1 hf
    exact accepted.limited n hn file hfile
  | unhealthy | passed | refused => cases List.mem_singleton.1 hr
  | plain | offer | fetched | verdict | quiet => cases hr

theorem Next.goes (h : Next env d f s v v') :
    ∃ f', v'.phase = .fetching f' ∧ f'.list = f.list ∧ f'.Goes env s.files s.data := by
  cases h with
  | ask => exact ⟨_, rfl, rfl, rfl, rfl⟩
  | scan => exact ⟨_, rfl, rfl, rfl, Nat.add_assoc ..⟩

theorem Next.lists (h : Next env d f s v v') (hv : v.out = []) :
    (v'.out.filter fun em => em.side = d.receiver ∧ em.body.isList) = [] := by
  cases h <;> simp [hv]

/-- What is reported and listed, as a view has it. -/
def View.Tells (env : Env) (d : Dir) (v : View) (hd : Option Heard) (v' : View) : Prop :=
  Told env d v.longNames hd v.phase v'.phase (v'.reports.filter fun r => r.dir = d)
    ((v'.out.filter fun em => em.side = d.receiver ∧ em.body.isList).map Emission.body)

theorem View.tells (h : Told env d v.longNames hd v.phase p rs ls) (hp : v'.phase = p)
    (hrs : (v'.reports.filter fun r => r.dir = d) = rs)
    (hls : (v'.out.filter fun em => em.side = d.receiver ∧ em.body.isList).map Emission.body = ls) :
    v.Tells env d hd v' := by
  unfold View.Tells
  rw [hp, hrs, hls]
  exact h

theorem View.tells_refused {v₁ : View} {files : List FileDescriptor} {reason : String} {us : List Bytes}
    (h : Told env d v.longNames hd v.phase .idle [.refused d (filesOf files) reason]
      [.own (.formatList .newUnicodeEmpty) us])
    (hrs : v₁.reports = []) (hls : (v₁.out.filter fun em => em.side = d.receiver ∧ em.body.isList) = []) :
    v.Tells env d hd (v₁.refused d files reason us) := by
  refine View.tells h rfl ?_ ?_
  · simp [View.refused, hrs, Report.dir]
  · rw [View.refused, List.filter_append, hls]
    simp [Body.isList, Body.pdu]

theorem Move.tells {hd : Heard} (h : Move env d v hd v') (hout : v.out = []) (hreports : v.reports = [])
    (hsaid : ev.Said d hd)
    (hlist : v.phase.KeepsList) :
    v.Tells env d (some hd) v' := by
  cases h with
  | plainList format =>
    exact View.tells (.plain rfl format) rfl (by simp [hreports])
      (by simp [hout, Body.isList, Body.pdu, hsaid.list.2])
  | unhealthyList format unhealthy =>
    exact View.tells_refused (.unhealthy rfl format) hreports (by simp [hout])
  | offer format healthy =>
    exact View.tells (.offer rfl format) rfl (by simp [hreports]) (by simp [hout])
  | acceptFiles owed waiting accepted next =>
    obtain ⟨f', hp, hl, hgoes⟩ := next.goes
    exact View.tells (.listed rfl waiting (Clip.listing_accepted accepted) hl hgoes) hp
      (by simp [next.reports, hreports, Report.dir]) (by rw [next.lists hout]; rfl)
  | acceptContents fetches takes hs' next =>
    obtain ⟨f', hp, hl, hgoes⟩ := next.goes
    subst hs'
    exact View.tells (.fetched rfl fetches takes hl hgoes) hp
      (by simp [next.reports, hreports]) (by rw [next.lists hout]; rfl)
  | storeVerdict scans more =>
    exact View.tells (.verdict rfl scans) rfl (by simp [hreports]) (by simp [hout])
  | passVerdict scans =>
    obtain ⟨l, hl⟩ := hlist _ scans.1
    exact View.tells (.passed rfl scans) rfl (by simp [hreports, Report.dir])
      (by simp [hout, Body.isList, Body.pdu, hl])
  | refuseFiles owed waiting refused =>
    exact View.tells_refused (.refused (by simp) waiting.1) hreports (by simp [hout])
  | refuseContents fetches stream =>
    exact View.tells_refused (.refused (by simp) fetches.1) hreports (by simp [hout])
  | refuseVerdict scans =>
    exact View.tells_refused (.refused (by simp) scans.1) hreports (by simp [hout])
  | ignoreContents other =>
    refine View.tells (.quiet (by simp) ?_) rfl (by simp [hreports]) (by simp [hout])
    intro resp heq
    cases heq
    exact other
  | passData =>
    exact View.tells (.quiet (by simp) (by simp)) rfl (by simp [hreports])
      (by simp [hout, Body.isList, Body.pdu, hsaid.dataAnswer.2])
  | answerData | answerContents =>
    exact View.tells (.quiet (by simp) (by simp)) rfl (by simp [hreports])
      (by simp [hout, Body.isList, Body.pdu])
  | passList | forwardData =>
    exact View.tells (.quiet (by simp) (by simp)) rfl (by simp [hreports]) (by simp [hout])
  | swallowList | dropData | ignoreVerdict =>
    exact View.tells (.quiet (by simp) (by simp)) rfl (by simp [hreports]) (by simp [hout])

namespace Clip

variable {env : Env} {d : Dir} {c c' : Clip}

theorem Late.cases (h : Late env d c c') : c' = c ∨ ∃ f files reason us,
    (c.direction d).phase = .fetching f ∧ f.deadline ≤ env.now ∧ (c'.direction d).phase = .idle ∧
      c'.reports = c.reports ++ [.refused d (filesOf files) reason] ∧
      c'.out = c.out ++ [⟨d.receiver, .own (.formatList .newUnicodeEmpty) us⟩] := by
  cases h with
  | inTime => exact .inl rfl
  | refused phase late view frame =>
    exact .inr ⟨_, _, _, _, phase, late, congrArg View.phase view, congrArg View.reports view, congrArg View.out view⟩

theorem Late.tells_other (h : Late env d c c') :
    c'.reportsOf d.other = c.reportsOf d.other ∧ c'.listsTo d.other = c.listsTo d.other := by
  rcases h.cases with rfl | ⟨f, files, reason, us, -, -, -, hreports, hout⟩
  · exact ⟨rfl, rfl⟩
  · have hdir : d ≠ d.other := fun h => Dir.other_ne d h.symm
    simp [reportsOf, listsTo, hreports, hout, Report.dir, hdir]

theorem Late.tells (h : Late env d c c') (hrs : c.reportsOf d = []) (hls : c.listsTo d = []) :
    Told env d long none (c.direction d).phase (c'.direction d).phase (c'.reportsOf d) (c'.listsTo d) := by
  rcases h.cases with rfl | ⟨f, files, reason, us, hp, -, hp', hreports, hout⟩
  · rw [hrs, hls]
    exact .quiet (by simp) (by simp)
  · have hrs' : c'.reportsOf d = [.refused d (filesOf files) reason] := by
      rw [reportsOf, hreports, List.filter_append, ← reportsOf, hrs]
      simp [Report.dir]
    have hls' : c'.listsTo d = [.own (.formatList .newUnicodeEmpty) us] := by
      rw [listsTo, hout, List.filter_append, List.map_append, ← listsTo, hls]
      simp [Body.isList, Body.pdu]
    rw [hp', hrs', hls']
    exact .refused (by simp) hp

end Clip

theorem Move.tells_other {hd : Heard} (h : Move env d v hd v') (hout : v.out = []) (hreports : v.reports = [])
    (hsaid : ev.Said d hd)
    (hlist : v.phase.KeepsList) :
    (v'.reports.filter fun r => r.dir = d.other) = [] ∧
      (v'.out.filter fun em => em.side = d.other.receiver ∧ em.body.isList) = [] := by
  constructor
  · rw [List.filter_eq_nil_iff]
    intro r hr hdir
    rw [(h.reports hreports r hr).1, decide_eq_true_eq] at hdir
    exact Dir.other_ne d hdir.symm
  · rw [List.filter_eq_nil_iff]
    intro em hem hto
    obtain ⟨hside, hl⟩ := of_decide_eq_true hto
    rw [Dir.receiver_other] at hside
    obtain ⟨p, hp, ⟨-, hfor⟩ | ⟨hside', -⟩⟩ := (h.writes hout hsaid em hem).roles hlist
    · rw [Body.isList, hp] at hl
      cases p with
      | formatList => cases hfor
      | _ => cases hl
    · exact Dir.sender_ne_receiver d (hside.symm.trans hside')

theorem Round.told {l : Label} {s s' : Session} (h : Round l s s') (hlist : ListKept s) (d : Dir) :
    Told l.env d s.clip.longNames (l.event.about d) (s.clip.direction d).phase (s'.clip.direction d).phase
      (s'.clip.reportsOf d) (s'.clip.listsTo d) := by
  have htaken := s.clip.direction_taken
  have hquiet : l.event.about d = none → (s'.clip.direction d).phase = (s.clip.direction d).phase →
      s'.clip.reportsOf d = [] → s'.clip.listsTo d = [] →
      Told l.env d s.clip.longNames (l.event.about d) (s.clip.direction d).phase (s'.clip.direction d).phase
        (s'.clip.reportsOf d) (s'.clip.listsTo d) := by
    intro habout hp hrs hls
    rw [habout, hp, hrs, hls]
    exact .quiet (by simp) (by simp)
  cases h with
  | @heard d' hd heard move frame =>
    have hlist' : ∀ f, (s.clip.taken.view d').phase = .fetching f → _ :=
      fun f hf => hlist d' f (by rw [← htaken]; exact hf)
    by_cases hd' : d' = d
    · subst hd'
      have htells := move.tells rfl rfl (Event.said heard) hlist'
      rw [Event.about_eq heard, ← htaken]
      exact htells
    · obtain rfl := Dir.eq_other_of_ne (Ne.symm hd')
      obtain ⟨hrs, hls⟩ := move.tells_other rfl rfl (Event.said heard) hlist'
      exact hquiet (Event.about_eq_none (Event.heard_ne heard hd')) (congrArg Direction.phase frame.other) hrs
        (congrArg (List.map Emission.body) hls)
  | aside event heard aside =>
    refine hquiet (Event.about_eq_none (by simp [heard])) (by rw [aside.direction, htaken]) ?_ ?_
    · rw [Clip.reportsOf, aside.reports]
      rfl
    · rw [Clip.listsTo, List.map_eq_nil_iff, List.filter_eq_nil_iff]
      intro em hem hto
      have hl := (of_decide_eq_true hto).2
      obtain ⟨-, ⟨caps, us, hb⟩ | ⟨hb, hp | ⟨path, hp⟩⟩⟩ := aside.out rfl em hem <;>
        simp [Body.isList, Body.pdu, *] at hl
  | @deadline m event up down =>
    have habout : ∀ d, l.event.about d = none := by
      rw [event]
      exact fun d => rfl
    rw [habout, ← htaken]
    cases d with
    | upload =>
      obtain ⟨hrs, hls⟩ := down.tells_other
      have hdir : s'.clip.direction .upload = m.direction .upload := down.other
      rw [hdir, show s'.clip.reportsOf .upload = _ from hrs, show s'.clip.listsTo .upload = _ from hls]
      exact up.tells rfl rfl
    | download =>
      obtain ⟨hrs, hls⟩ := up.tells_other
      have hdir : m.direction .download = s.clip.taken.direction .download := up.other
      rw [← hdir]
      exact down.tells hrs hls
  | staged event clip =>
    refine hquiet (Event.about_eq_none (by rw [event]; exact fun _ h => by cases h)) ?_ ?_ ?_
    · rw [clip]
      exact congrArg Direction.phase (htaken d)
    · rw [clip]
      rfl
    · rw [clip]
      rfl

end WebAccess.Scan
