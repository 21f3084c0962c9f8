/-
Which answer the file list of an offer is. A request for a file list is made for one Format List;
the offer may be replaced, refused or time out before the answer comes, and the answer is then
still owed to the proxy. The file list of an offer is the answer to the request made for it in
every run in which no such answer is outstanding when another is used; where one is, the answer
to the older request is taken for the newer offer.
-/
import WebAccess.Scan.Owed

namespace WebAccess.Scan

open Codec Wire Transition Fifo

/-! ## Which answer the file list of an offer is -/

/-- The answer the sender gave to the request the proxy made for the last Format List. -/
def Ledger.Own (L : Ledger) (resp : FormatDataResponse) : Prop :=
  ∃ n, n + 1 = L.lists.length ∧ Paired L.asked L.answers (.list n) resp

/-- The phase of a direction belongs to the last Format List: while the proxy waits, its request for
that list is pending, and a file list it has is the answer to that request. -/
structure Sourced (L : Ledger) (p : Phase) : Prop where
  waiting : ∀ f, p.Waiting f → ∃ n, n + 1 = L.lists.length ∧ .list n ∈ pending L.asked L.answers
  uses : p.listed = true → ∃ resp, L.Own resp ∧ p.Uses resp
  list : ∀ f, p = .fetching f → L.lists.getLast? = some f.list

section Source

variable {hd : Option Heard} {p p' : Phase} {q q' : List Owner} {L L' : Ledger}

/-- When the proxy waits and no other answer is owed to it, the next answer is to its request for
the last Format List. -/
theorem Sourced.next {f : Fetch} {rest : List Owner} (h : Sourced L p) (hk : Kept L q) (hq : q = .proxy :: rest)
    (hw : p.Waiting f) (hone : Owner.proxy ∉ rest) :
    ∃ n r, n + 1 = L.lists.length ∧ pending L.asked L.answers = .list n :: r := by
  obtain ⟨n, hn, hmem⟩ := h.waiting f hw
  obtain ⟨a, r, hr, -, hrest⟩ := hk.cons hq
  rw [hr, List.mem_cons] at hmem
  rcases hmem with rfl | hmem
  · exact ⟨n, r, hn, hr⟩
  · exact absurd (hrest ▸ List.mem_map_of_mem (f := Origin.owner) hmem) hone

theorem Sourced.idle (L : Ledger) : Sourced L .idle := by
  refine ⟨?_, ?_, ?_⟩
  · rintro f ⟨h, -⟩
    cases h
  · intro h
    cases h
  · intro f h
    cases h

theorem Sourced.ask (h : Sourced L p) (l : List Origin) (n : Nat) (hle : L.answers.length ≤ L.asked.length) :
    Sourced { L with asked := L.asked ++ l, requests := n } p := by
  refine ⟨?_, ?_, h.list⟩
  · intro f hw
    obtain ⟨n, hn, hmem⟩ := h.waiting f hw
    exact ⟨n, hn, by rw [pending_ask hle]; exact List.mem_append_left _ hmem⟩
  · intro hl
    obtain ⟨resp, ⟨n, hn, hp⟩, hu⟩ := h.uses hl
    exact ⟨resp, ⟨n, hn, hp.ask l⟩, hu⟩

theorem Sourced.answer {a : Origin} {r : List Origin} (h : Sourced L p) (hr : pending L.asked L.answers = a :: r)
    (hne : ∀ f n, p.Waiting f → a ≠ .list n) (resp : FormatDataResponse) (delivered : List (Option Nat)) :
    Sourced { L with answers := L.answers ++ [resp], delivered := delivered } p := by
  refine ⟨?_, ?_, h.list⟩
  · intro f hw
    obtain ⟨n, hn, hmem⟩ := h.waiting f hw
    rw [hr, List.mem_cons] at hmem
    exact ⟨n, hn, by rw [pending_answer hr]; exact hmem.resolve_left fun h => hne f n hw h.symm⟩
  · intro hl
    obtain ⟨resp', ⟨n, hn, hp⟩, hu⟩ := h.uses hl
    exact ⟨resp', ⟨n, hn, hp.answer resp⟩, hu⟩

/-- A round keeps the source of the phase, when an answer the proxy uses is the only one owed to
it. -/
theorem Booked.sourced (h : Booked hd p p' q q' L L') (hk : Kept L q) (hs : Sourced L p)
    (hans : L'.answers.length ≤ L'.asked.length)
    (hone : ∀ resp w f rest, hd = some (.dataAnswer resp w) → p.Waiting f → q = .proxy :: rest →
      Owner.proxy ∉ rest) : Sourced L' p' := by
  cases h with
  | list phase owed => rw [phase]; exact .idle _
  | @offer whole f phase list owed =>
    have hphase := phase.1
    subst hphase
    refine ⟨fun f' hf' => ⟨L.lists.length, by simp, ?_⟩, ?_, ?_⟩
    · rw [pending_ask hk.answered]
      simp
    · intro hl
      rw [phase.not_listed] at hl
      cases hl
    · rintro f' ⟨⟩
      rw [list]
      simp
  | answered heard answer phase owed => rw [phase]; exact ⟨hs.waiting, hs.uses, hs.list⟩
  | forwarded phase owed => rw [phase]; exact hs.ask _ _ hk.answered
  | passed head phase owed =>
    rw [phase]
    obtain ⟨a, r, hr⟩ := pending_cons_of_asked hans
    refine hs.answer hr ?_ _ _
    rintro f n - rfl
    rw [hk.owed, hr] at head
    exact head rfl
  | dropped head waiting phase owed =>
    rw [phase]
    obtain ⟨a, r, hr, -, -⟩ := hk.cons head
    exact hs.answer hr (fun f _ hw => absurd hw (waiting f)) _ L.delivered
  | @used resp w rest f heard head waiting phase owed =>
    obtain ⟨n, r, hn, hr⟩ := hs.next hk head waiting (hone _ _ _ _ heard waiting head)
    rcases phase with hidle | ⟨huses, f', hf', hlist⟩
    · rw [hidle]
      exact .idle _
    · refine ⟨?_, fun _ => ⟨resp, ⟨n, hn, paired_of_pending_cons hr resp⟩, huses⟩, ?_⟩
      · intro f₂ hw
        rw [hw.1] at huses
        simp [Phase.Uses, hw.2] at huses
      · intro f₂ hf₂
        cases hf'.symm.trans hf₂
        rw [hlist]
        exact hs.list f waiting.1
  | quiet phase owed =>
    rcases phase with hsame | hidle | hcont
    · rw [hsame]
      exact hs
    · rw [hidle]
      exact .idle _
    · obtain ⟨resp, hown, hu⟩ := hs.uses hcont.listed
      refine ⟨?_, fun _ => ⟨resp, hown, hcont.uses resp hu⟩, ?_⟩
      · intro f hw
        have huses := hcont.uses resp hu
        rw [hw.1] at huses
        simp [Phase.Uses, hw.2] at huses
      · intro f' hf'
        obtain ⟨f, hf, hlist⟩ := hcont.list f' hf'
        rw [hlist]
        exact hs.list f hf

theorem Ledger.Own.book {d : Dir} {resp : FormatDataResponse} (h : L.Own resp) (out : List Emission)
    (hno : ∀ l w, hd ≠ some (.list l w)) : (L.book d hd out).Own resp := by
  obtain ⟨n, hn, hp⟩ := h
  have hheard : (L.hear hd).lists = L.lists ∧ ∃ as, (L.hear hd).answers = L.answers ++ as ∧ as.length ≤ 1 := by
    cases hd with
    | none => exact ⟨rfl, [], by simp [Ledger.hear], by simp⟩
    | some hd =>
      cases hd with
      | list l w => exact absurd rfl (hno l w)
      | dataAnswer resp w => exact ⟨rfl, [resp], rfl, le_rfl⟩
      | _ => exact ⟨rfl, [], by simp [Ledger.hear], by simp⟩
  obtain ⟨hlists, as, has, hone⟩ := hheard
  refine ⟨n, hn.trans (congrArg List.length hlists.symm), ?_⟩
  show Paired (L.asked ++ _) (L.hear hd).answers (.list n) resp
  rw [has]
  rcases as with _ | ⟨b, _ | ⟨b', as⟩⟩
  · rw [List.append_nil]
    exact hp.ask _
  · exact (hp.ask _).answer b
  · simp at hone

end Source

/-! ## What is reported and shown -/

def Report.dir : Report → Dir
  | .started d _ | .passed d _ | .refused d _ _ => d

/-- The files a report names, with their sizes. -/
def Report.files : Report → List (Text × Nat)
  | .started _ fs | .passed _ fs | .refused _ fs _ => fs

variable {staging : Staging} {v v' : View} {l : Label} {s' : Session}

theorem Clip.listing_refused {resp : FormatDataResponse} {limit : Option Nat} {files : List FileDescriptor}
    {reason : String} (h : Clip.listing resp limit staging = .refused files reason) :
    files = [] ∨ resp.toFileList = some files := by
  unfold Clip.listing at h
  split at h
  · cases h; exact .inl rfl
  split at h
  · cases h; exact .inl rfl
  rename_i hread
  split at h
  · cases h; exact .inl rfl
  split at h
  · cases h; exact .inr hread
  split at h
  · cases h; exact .inr hread
  split at h
  · cases h; exact .inr hread
  split at h
  · cases h; exact .inr hread
  · cases h

theorem Phase.fetchFiles_eq (p : Phase) :
    Clip.fetchFiles p = [] ∨ p.listed = true ∧ ∀ resp, p.Uses resp → resp.toFileList = some (Clip.fetchFiles p) := by
  cases p with
  | idle | offered => exact .inl rfl
  | fetching f =>
    cases hs : f.step with
    | descriptor =>
      obtain ⟨g, l, fl, st, dl, r⟩ := f
      cases hs
      exact .inl rfl
    | contents c =>
      have hf : Phase.Fetches (.fetching f) f c := ⟨rfl, hs⟩
      exact .inr ⟨hf.listed, fun resp hu => by rw [hf.fetchFiles]; exact (hf.uses.1 hu).read⟩
    | scanning c =>
      have hf : Phase.Scans (.fetching f) f c := ⟨rfl, hs⟩
      exact .inr ⟨hf.listed, fun resp hu => by rw [hf.fetchFiles]; exact (hf.uses.1 hu).read⟩

/-- Where the files of a report come from: nowhere, the file list of the phase, or the answer that
is being read. -/
inductive Names (hd : Option Heard) (p : Phase) (q : List Owner) (files : List (Text × Nat)) : Prop
  | none (files : files = [])
  | phase (other : ∀ l w, hd ≠ some (.list l w)) (files : files = filesOf (Clip.fetchFiles p))
  | answer {resp : FormatDataResponse} {w : Whole} {f : Fetch} {rest : List Owner} {fs : List FileDescriptor}
      (heard : hd = some (.dataAnswer resp w)) (waiting : p.Waiting f) (owed : q = .proxy :: rest)
      (read : resp.toFileList = some fs) (files : files = filesOf fs)

variable {env : Env} {d : Dir} {s : Session} {tr : Trace}

theorem Next.reports {f : Fetch} {c : Contents} (h : Next env d f c v v') : v'.reports = v.reports := by
  cases h <;> rfl

theorem Move.reports {hd : Heard} (h : Move env d v hd v') (hv : v.reports = []) :
    ∀ r ∈ v'.reports, r.dir = d ∧ Names (some hd) v.phase v.dataOwed r.files := by
  intro r hr
  cases h with
  | unhealthyList =>
    obtain rfl := List.mem_singleton.1 (by simpa [hv, View.refused] using hr)
    exact ⟨rfl, .none rfl⟩
  | refuseFiles owed waiting refused =>
    obtain rfl := List.mem_singleton.1 (by simpa [hv, View.refused] using hr)
    refine ⟨rfl, ?_⟩
    rcases Clip.listing_refused refused with rfl | hread
    · exact .none rfl
    · exact .answer rfl waiting owed hread rfl
  | acceptFiles owed waiting accepted next =>
    rw [next.reports] at hr
    obtain rfl := List.mem_singleton.1 (by simpa [hv] using hr)
    exact ⟨rfl, .answer rfl waiting owed (Clip.listing_accepted accepted).read rfl⟩
  | refuseContents fetches stream =>
    obtain rfl := List.mem_singleton.1 (by simpa [hv, View.refused] using hr)
    exact ⟨rfl, .phase (by simp) (by rw [fetches.fetchFiles]; rfl)⟩
  | acceptContents fetches takes hs' next =>
    rw [next.reports] at hr
    simp [hv] at hr
  | passVerdict scans =>
    obtain rfl := List.mem_singleton.1 (by simpa [hv] using hr)
    exact ⟨rfl, .phase (by simp) (by rw [scans.fetchFiles]; rfl)⟩
  | refuseVerdict scans =>
    obtain rfl := List.mem_singleton.1 (by simpa [hv, View.refused] using hr)
    exact ⟨rfl, .phase (by simp) (by rw [scans.fetchFiles]; rfl)⟩
  | _ =>
    rw [show v.reports = [] from hv] at hr
    cases hr

theorem Clip.Late.reports {c c' : Clip} (h : Clip.Late env d c c') :
    ∀ r ∈ c'.reports, r ∈ c.reports ∨ r.dir = d ∧ r.files = filesOf (Clip.fetchFiles (c.direction d).phase) := by
  cases h with
  | inTime => exact fun r hr => .inl hr
  | refused phase late view frame =>
    have hreports := congrArg View.reports view
    intro r hr
    rw [show c'.reports = _ from hreports, View.refused, List.mem_append, List.mem_singleton] at hr
    rcases hr with hr | rfl
    · exact .inl hr
    · exact .inr ⟨rfl, rfl⟩

theorem Round.reports (h : Round l s s') :
    ∀ r ∈ s'.clip.reports,
      Names (l.event.about r.dir) (s.clip.direction r.dir).phase (s.clip.direction r.dir).dataOwed r.files := by
  have hdeadline : ∀ {d : Dir} {files}, l.event = .deadline →
      files = filesOf (Clip.fetchFiles (s.clip.direction d).phase) →
      Names (l.event.about d) (s.clip.direction d).phase (s.clip.direction d).dataOwed files := by
    intro d files hev hfiles
    refine .phase ?_ hfiles
    rw [hev]
    exact fun _ _ h => by cases h
  intro r hr
  cases h with
  | @heard d hd heard move frame =>
    obtain ⟨rfl, hn⟩ := move.reports rfl r hr
    rw [Event.about_eq heard]
    have hphase : (s.clip.taken.view r.dir).phase = (s.clip.direction r.dir).phase := by cases r.dir <;> rfl
    have howed : (s.clip.taken.view r.dir).dataOwed = (s.clip.direction r.dir).dataOwed := by cases r.dir <;> rfl
    rwa [hphase, howed] at hn
  | aside event heard aside =>
    rw [aside.reports] at hr
    cases hr
  | @deadline m event up down =>
    rcases down.reports r hr with hr | ⟨hd, hf⟩
    · rcases up.reports r hr with hr | ⟨hd, hf⟩
      · cases hr
      · rw [hd]
        exact hdeadline event hf
    · rw [hd]
      have hm : m.direction .download = s.clip.direction .download := up.other
      rw [hm] at hf
      exact hdeadline event hf
  | staged event clip =>
    rw [clip] at hr
    cases hr

/-! ## The descriptor belongs to its offer -/

/-- What a direction uses, reports and shows as the file list of an offer is the sender's answer to
the request the proxy made for the Format List of that offer. -/
structure OwnDescriptor (d : Dir) (tr : Trace) (s : Session) : Prop where
  list : ∀ f, (s.clip.direction d).phase = .fetching f → (ledger d tr).lists.getLast? = some f.list
  uses : (s.clip.direction d).phase.listed = true →
    ∃ resp, (ledger d tr).Own resp ∧ (s.clip.direction d).phase.Uses resp
  reports : ∀ r ∈ s.clip.reports, r.dir = d → r.files = [] ∨
    ∃ resp files, (ledger d tr).Own resp ∧ resp.toFileList = some files ∧ r.files = filesOf files
  shown : ∀ em ∈ s.clip.out, ∀ a us, em.side = d.receiver → em.body = .own (.formatDataResponse a) us →
    a.isError = false → ∃ resp, (ledger d tr).Own resp ∧ a.data = resp.data

/-- When an answer comes in that the proxy takes for a file list, it is owed no other answer. -/
def NoneStale (d : Dir) (e : Entry Session Label) : Prop :=
  ∀ resp w f rest, e.label.event.about d = some (.dataAnswer resp w) → (e.pre.clip.direction d).phase.Waiting f →
    (e.pre.clip.direction d).dataOwed = .proxy :: rest → Owner.proxy ∉ rest

theorem OwnDescriptor.step (hround : Round l s s') (hlist : ListKept s)
    (hk : Kept (ledger d tr) (s.clip.direction d).dataOwed) (hs : Sourced (ledger d tr) (s.clip.direction d).phase)
    (hs' : Sourced (ledger d (tr ++ [⟨s, l, s'⟩])) (s'.clip.direction d).phase) (hone : NoneStale d ⟨s, l, s'⟩) :
    OwnDescriptor d (tr ++ [⟨s, l, s'⟩]) s' := by
  refine ⟨hs'.list, hs'.uses, ?_, ?_⟩
  · rintro r hr rfl
    rw [ledger_snoc]
    cases hround.reports r hr with
    | none files => exact .inl files
    | phase other files =>
      rcases Phase.fetchFiles_eq (s.clip.direction r.dir).phase with hnil | ⟨hl, hread⟩
      · rw [files, hnil]
        exact .inl rfl
      · obtain ⟨resp, hown, hu⟩ := hs.uses hl
        exact .inr ⟨resp, _, hown.book _ other, hread resp hu, files⟩
    | @answer resp w f rest fs heard waiting owed read files =>
      obtain ⟨n, r', hn, hr'⟩ := hs.next hk owed waiting (hone _ _ _ _ heard waiting owed)
      refine .inr ⟨resp, fs, ⟨n, ?_, ?_⟩, read, files⟩
      · simpa [Ledger.book, heard, Ledger.hear] using hn
      · have hp := (paired_of_pending_cons hr' resp).ask
        simpa [Ledger.book, heard, Ledger.hear] using hp _
  · intro em hem a us hside hb herr
    have hgives := hround.gives hlist d em hem a hside (by rw [hb]; rfl)
    rw [hb] at hgives
    obtain ⟨habout, hans⟩ := hgives
    rcases Clip.dataAnswer_cases hans with rfl | ⟨o, ho, rfl⟩
    · cases herr
    · obtain ⟨resp, hown, hu⟩ := hs.uses (by rw [ho]; rfl)
      rw [ho] at hu
      obtain ⟨files, hbasis⟩ := hu
      rw [ledger_snoc]
      exact ⟨resp, hown.book _ (by simp [habout]), hbasis.data.symm⟩

theorem sourced (hrun : SessionRun staging tr s) (hans : Answering d tr) (hone : ∀ e ∈ tr, NoneStale d e) :
    Sourced (ledger d tr) (s.clip.direction d).phase ∧ OwnDescriptor d tr s := by
  refine hrun.history ?_ ?_ hans hone
  · intro _ _
    have hidle : ((Session.start staging).clip.direction d).phase = .idle := by cases d <;> rfl
    have hs := Sourced.idle ({} : Ledger)
    rw [← hidle] at hs
    exact ⟨hs, hs.list, hs.uses, by simp [Session.start], by simp [Session.start]⟩
  · intro tr s l s' hrun ih hstep hans hone
    obtain ⟨hans₁, hans₂⟩ := hans.snoc
    obtain ⟨hs, -⟩ := ih hans₁ fun e he => hone e (List.mem_append_left _ he)
    have hk := kept hrun hans₁
    have hround := Session.round hstep
    have hlast := hone ⟨s, l, s'⟩ (by simp)
    rw [ledger_snoc] at hans₂
    have hs' : Sourced (ledger d (tr ++ [⟨s, l, s'⟩])) (s'.clip.direction d).phase := by
      rw [ledger_snoc]
      exact (hround.booked (listKept hrun) d).sourced hk hs hans₂ hlast
    exact ⟨hs', .step hround (listKept hrun) hk hs hs' hlast⟩

/-- The descriptor belongs to its offer, in every run in which the sender answers in order and the
proxy, when it takes an answer for a file list, is owed no other. -/
theorem descriptor_of_own_list {staging : Staging} {d : Dir} {tr : Trace} {s : Session}
    (hrun : SessionRun staging tr s) (hans : Answering d tr) (hone : ∀ e ∈ tr, NoneStale d e) :
    OwnDescriptor d tr s := (sourced hrun hans hone).2

theorem noneStale_of_all (h : (tr.all fun e => decide (Owner.proxy ∉ (e.pre.clip.direction d).dataOwed.tail)) = true) :
    ∀ e ∈ tr, NoneStale d e := by
  intro e he resp w f rest _ _ howed
  have htail := of_decide_eq_true (List.all_eq_true.1 h e he)
  rwa [howed, List.tail_cons] at htail

/-- One offer whose file list is asked for and answered. -/
theorem descriptor_of_own_list_one : ∃ s, SessionRun ⟨0, 100⟩ (scripted ⟨0, 100⟩ [offerFile, listFile 'a' 3]) s ∧
    (s.clip.direction .upload).phase.listed = true ∧
    OwnDescriptor .upload (scripted ⟨0, 100⟩ [offerFile, listFile 'a' 3]) s := by
  obtain ⟨s, hrun, hlisted⟩ := scripted_state ⟨0, 100⟩ [offerFile, listFile 'a' 3]
    (fun s => (s.clip.direction .upload).phase.listed) (by decide +kernel)
  refine ⟨s, hrun, hlisted, descriptor_of_own_list hrun ?_ ?_⟩
  · exact answering_of_all (by decide +kernel)
  · exact noneStale_of_all (by decide +kernel)

/-- The client offers a file, offers another before it has answered for the first, and then answers
both requests in order: the answer for the first offer is used for the second. -/
def twoOffers : List Event := [offerFile, offerFile, listFile 'a' 3, listFile 'b' 5]

/-- The files of the first offer are held for the second. -/
theorem descriptor_of_replaced_list : ∃ s, SessionRun ⟨0, 100⟩ (scripted ⟨0, 100⟩ twoOffers) s ∧
    Answering .upload (scripted ⟨0, 100⟩ twoOffers) ∧
    (ledger .upload (scripted ⟨0, 100⟩ twoOffers)).answers.length =
      (ledger .upload (scripted ⟨0, 100⟩ twoOffers)).asked.length ∧
    ¬ OwnDescriptor .upload (scripted ⟨0, 100⟩ twoOffers) s := by
  obtain ⟨s, hrun, hfiles⟩ := scripted_state ⟨0, 100⟩ twoOffers
    (fun s => Clip.fetchFiles (s.clip.direction .upload).phase = [⟨none, none, some 3, ['a'], none⟩])
    (by decide +kernel)
  have hfiles := of_decide_eq_true hfiles
  refine ⟨s, hrun, answering_of_all (by decide +kernel), by decide +kernel, fun hown => ?_⟩
  rcases Phase.fetchFiles_eq (s.clip.direction .upload).phase with hnil | ⟨hlisted, hread⟩
  · rw [hnil] at hfiles
    cases hfiles
  obtain ⟨resp, ⟨n, hn, k, hk, hresp⟩, huses⟩ := hown.uses hlisted
  have hlists : (ledger .upload (scripted ⟨0, 100⟩ twoOffers)).lists.length = 2 := by decide +kernel
  have hasked : (ledger .upload (scripted ⟨0, 100⟩ twoOffers)).asked = [.list 0, .list 1] := by decide +kernel
  have hanswer : (ledger .upload (scripted ⟨0, 100⟩ twoOffers)).answers[1]?.bind FormatDataResponse.toFileList =
      some [⟨none, none, some 5, ['b'], none⟩] := by decide +kernel
  rw [hlists] at hn
  obtain rfl : n = 1 := by omega
  rw [hasked] at hk
  have hk1 : k = 1 := by
    rcases k with _ | _ | k
    · simp at hk
    · rfl
    · simp at hk
  subst hk1
  rw [hresp, Option.bind_some, hread resp huses, hfiles] at hanswer
  cases hanswer

end WebAccess.Scan
