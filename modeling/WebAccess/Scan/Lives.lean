/-
The life of an offer of files: the rounds from the Format List that makes it up to the sender's
next one. It is open until one round passes or refuses it, that round tells so once, and the rounds
after it say nothing more (`Standing`). An open offer has moved on as often as bytes have come in for
it, each time within the time an answer may take (`Progress`, `Timing`); so where deadlines are
served it cannot stay open for longer than its declared bytes allow.
-/
import Mathlib.Data.List.Chain
import WebAccess.Scan.Outcomes
import WebAccess.Scan.Pool

namespace WebAccess.Scan

open Codec Wire Transition

/-! ## Lists and offers -/

/-- The sender of a direction gives a Format List. -/
def Lists (d : Dir) (e : Entry Session Label) : Prop :=
  ∃ list whole, e.label.event.about d = some (.list list whole)

/-- It gives a Format List with a file list among its formats. -/
def Offers (d : Dir) (whole : Whole) (e : Entry Session Label) : Prop :=
  ∃ list fileList, e.label.event.about d = some (.list list whole) ∧
    offersFiles e.pre.clip.longNames list = some fileList

def Plain (d : Dir) (whole : Whole) (e : Entry Session Label) : Prop :=
  ∃ list, e.label.event.about d = some (.list list whole) ∧ offersFiles e.pre.clip.longNames list = none

/-- What is reported about a direction in some rounds. -/
def reportsIn (d : Dir) (tr : Trace) : List Report := tr.flatMap fun e => e.post.clip.reportsOf d

/-- The Format Lists the receiver of a direction is given in some rounds. -/
def listsIn (d : Dir) (tr : Trace) : List Body := tr.flatMap fun e => e.post.clip.listsTo d

@[simp] theorem reportsIn_snoc (d : Dir) (tr : Trace) (e : Entry Session Label) :
    reportsIn d (tr ++ [e]) = reportsIn d tr ++ e.post.clip.reportsOf d := by simp [reportsIn]

@[simp] theorem listsIn_snoc (d : Dir) (tr : Trace) (e : Entry Session Label) :
    listsIn d (tr ++ [e]) = listsIn d tr ++ e.post.clip.listsTo d := by simp [listsIn]

def Tells (d : Dir) (e : Entry Session Label) : Prop :=
  Told e.label.env d e.pre.clip.longNames (e.label.event.about d) (e.pre.clip.direction d).phase
    (e.post.clip.direction d).phase (e.post.clip.reportsOf d) (e.post.clip.listsTo d)

/-! ## Open and closed -/

/-- Nothing has ended: files may have been announced, no list was given. -/
structure Open (d : Dir) (life : Trace) : Prop where
  reports : ∀ r ∈ reportsIn d life, ∃ files, r = .started d files
  lists : listsIn d life = []

/-- A round ends the offer, once and for all it tells: it passes it with the sender's own list, or
refuses it with an empty one. -/
inductive Ending (d : Dir) (whole : Whole) (e : Entry Session Label) : Prop
  | passed {files : List (Text × Nat)} (reports : e.post.clip.reportsOf d = [.passed d files])
      (lists : e.post.clip.listsTo d = [.passed whole])
  | refused {files : List (Text × Nat)} {reason : String} {us : List Bytes}
      (reports : e.post.clip.reportsOf d = [.refused d files reason])
      (lists : e.post.clip.listsTo d = [.own (.formatList .newUnicodeEmpty) us])

/-- One round has ended the offer, and nothing is told after it. -/
structure Closed (d : Dir) (whole : Whole) (life : Trace) : Prop where
  ended : ∃ before e after, life = before ++ e :: after ∧ Open d before ∧ Ending d whole e ∧
    reportsIn d after = [] ∧ listsIn d after = []

inductive Standing (d : Dir) (whole : Whole) (life : Trace) : Phase → Prop
  | pending {f : Fetch} (list : f.list = whole) (stays : Open d life) : Standing d whole life (.fetching f)
  | ended {p : Phase} (idle : ∀ f, p ≠ .fetching f) (closed : Closed d whole life) : Standing d whole life p

section Standing

variable {d : Dir} {whole : Whole} {life : Trace} {e : Entry Session Label}

theorem Open.nil : Open d [] := ⟨nofun, rfl⟩

theorem Open.snoc (h : Open d life) (hreports : ∀ r ∈ e.post.clip.reportsOf d, ∃ files, r = .started d files)
    (hlists : e.post.clip.listsTo d = []) : Open d (life ++ [e]) := by
  refine ⟨fun r hr => ?_, by rw [listsIn_snoc, h.lists, hlists]; rfl⟩
  rw [reportsIn_snoc, List.mem_append] at hr
  exact hr.elim (h.reports r) (hreports r)

theorem Open.close (h : Open d life) (he : Ending d whole e) : Closed d whole (life ++ [e]) :=
  ⟨life, e, [], rfl, h, he, rfl, rfl⟩

theorem Closed.snoc (h : Closed d whole life) (hreports : e.post.clip.reportsOf d = [])
    (hlists : e.post.clip.listsTo d = []) : Closed d whole (life ++ [e]) := by
  obtain ⟨before, x, after, rfl, hopen, hend, hrs, hls⟩ := h.ended
  refine ⟨before, x, after ++ [e], by simp, hopen, hend, ?_, ?_⟩
  · rw [reportsIn_snoc, hrs, hreports]
    rfl
  · rw [listsIn_snoc, hls, hlists]
    rfl

theorem Standing.snoc {env : Env} {long : Bool} {hd : Option Heard} {p p' : Phase} {rs : List Report}
    {ls : List Body} (h : Standing d whole life p) (htold : Told env d long hd p p' rs ls)
    (hno : ∀ l w, hd ≠ some (.list l w)) (hrs : e.post.clip.reportsOf d = rs) (hls : e.post.clip.listsTo d = ls) :
    Standing d whole (life ++ [e]) p' := by
  have hover : ∀ {f}, p = .fetching f → f.list = whole ∧ Open d life := by
    rintro f rfl
    cases h with
    | pending list stays => exact ⟨list, stays⟩
    | ended idle => exact absurd rfl (idle f)
  cases htold with
  | plain heard | unhealthy heard | offer heard => exact absurd heard (hno _ _)
  | listed heard waiting accepted list goes =>
    obtain ⟨hwhole, hopen⟩ := hover waiting.1
    exact .pending (list.trans hwhole) (hopen.snoc (by simp [hrs]) hls)
  | fetched heard fetches takes list goes =>
    obtain ⟨hwhole, hopen⟩ := hover fetches.1
    exact .pending (list.trans hwhole) (hopen.snoc (by simp [hrs]) hls)
  | verdict heard scans =>
    obtain ⟨hwhole, hopen⟩ := hover scans.1
    exact .pending hwhole (hopen.snoc (by simp [hrs]) hls)
  | passed heard scans =>
    obtain ⟨hwhole, hopen⟩ := hover scans.1
    exact .ended nofun (hopen.close (.passed hrs (hwhole ▸ hls)))
  | refused other fetching =>
    obtain ⟨hwhole, hopen⟩ := hover fetching
    exact .ended nofun (hopen.close (.refused hrs hls))
  | quiet =>
    cases h with
    | pending list stays => exact .pending list (stays.snoc (by simp [hrs]) hls)
    | ended idle closed => exact .ended idle (closed.snoc hrs hls)

end Standing

/-! ## Progress -/

def Step.stream? : Step → Option Nat
  | .contents s => some s.stream
  | .descriptor | .scanning _ => none

/-- The file list of the offer is accepted. -/
def isListed : Option Heard → Phase → Phase → Bool
  | some (.dataAnswer ..), .fetching f, .fetching f' => f.step.holds.isNone && f'.step.holds.isSome
  | _, _, _ => false

def isFetched : Option Heard → Phase → Phase → Bool
  | some (.contentsAnswer resp), .fetching f, .fetching _ => f.step.stream? == some resp.streamId
  | _, _, _ => false

/-- The sender's file list is accepted in a round. -/
def acceptsList (d : Dir) (e : Entry Session Label) : Bool :=
  isListed (e.label.event.about d) (e.pre.clip.direction d).phase (e.post.clip.direction d).phase

def acceptsContents (d : Dir) (e : Entry Session Label) : Bool :=
  isFetched (e.label.event.about d) (e.pre.clip.direction d).phase (e.post.clip.direction d).phase

/-- The files announced, each time that is done. -/
def Report.started? : Report → Option (List (Text × Nat))
  | .started _ files => some files
  | _ => none

/-- How far an offer has come: the announcements made, the file lists and the content responses
accepted. -/
structure Count where
  announced : List (List (Text × Nat))
  listed : Nat
  fetched : Nat

def count (d : Dir) (life : Trace) : Count :=
  ⟨(reportsIn d life).filterMap Report.started?, life.countP (acceptsList d), life.countP (acceptsContents d)⟩

/-- One file list at most, and no more content responses than it declares bytes. -/
inductive Count.Bounded (n : Count) : Prop
  | none (announced : n.announced = []) (listed : n.listed = 0) (fetched : n.fetched = 0)
  | one {files : List (Text × Nat)} (announced : n.announced = [files]) (listed : n.listed = 1)
      (fetched : n.fetched ≤ (files.map Prod.snd).sum)

inductive Progress (n : Count) : Phase → Prop
  | waiting {f : Fetch} (step : f.step.holds = none) (announced : n.announced = []) (listed : n.listed = 0)
      (fetched : n.fetched = 0) : Progress n (.fetching f)
  | fetching {f : Fetch} {files : List FileDescriptor} {data : List Bytes} (step : f.step.holds = some (files, data))
      (announced : n.announced = [filesOf files]) (listed : n.listed = 1) (fetched : n.fetched ≤ bytesIn data) :
      Progress n (.fetching f)
  | ended {p : Phase} (idle : ∀ f, p ≠ .fetching f) (bounded : n.Bounded) : Progress n p

section Progress

variable {n : Count} {p p' : Phase} {F : FetchLog}

theorem declared_eq (files : List FileDescriptor) : ((filesOf files).map Prod.snd).sum = declared files := by
  rw [filesOf, List.map_map]
  rfl

variable {f : Fetch}

variable {data : List Bytes} {f' : Fetch} {hd : Option Heard} {rs : List Report}

theorem Accounted.bytesIn_le {files : List FileDescriptor} (h : Accounted F (.fetching f))
    (hstep : f.step.holds = some (files, data)) : bytesIn data ≤ declared files := by
  cases hs : f.step with
  | descriptor =>
    rw [hs] at hstep
    cases hstep
  | contents c =>
    rw [hs] at hstep
    cases hstep
    have ha := (h.contents f c ⟨rfl, hs⟩).assembled
    exact bytesIn_le_declared ha.length ha.fits
  | scanning c =>
    rw [hs] at hstep
    cases hstep
    obtain ⟨ha, hfull⟩ := h.scans f c ⟨rfl, hs⟩
    exact (bytesIn_of_full ha.length hfull).le

theorem Progress.bounded (h : Progress n p) (ha : Accounted F p) : n.Bounded := by
  cases h with
  | waiting step announced listed fetched => exact .none announced listed fetched
  | fetching step announced listed fetched =>
    exact .one announced listed (fetched.trans ((ha.bytesIn_le step).trans_eq (declared_eq _).symm))
  | ended idle bounded => exact bounded

def Count.add (n : Count) (rs : List Report) (listed fetched : Bool) : Count :=
  ⟨n.announced ++ rs.filterMap Report.started?, n.listed + listed.toNat, n.fetched + fetched.toNat⟩

theorem count_snoc (d : Dir) (life : Trace) (e : Entry Session Label) : count d (life ++ [e]) =
    (count d life).add (e.post.clip.reportsOf d) (acceptsList d e) (acceptsContents d e) := by
  simp only [count, Count.add, reportsIn_snoc, List.filterMap_append, List.countP_append, List.countP_singleton,
    Count.mk.injEq, true_and]
  constructor
  · cases acceptsList d e <;> rfl
  · cases acceptsContents d e <;> rfl

theorem bytesIn_set {i : Nat} {held b : Bytes} (h : data[i]? = some held) :
    bytesIn (data.set i (held ++ b)) = bytesIn data + b.length := by
  have hsum := sum_map_set List.length (held ++ b) h
  rw [List.length_append] at hsum
  unfold bytesIn
  omega

theorem isListed_of_waiting {resp : FormatDataResponse} {w : Whole} (hstep : f.step = .descriptor)
    (h : f'.step.holds ≠ none) : isListed (some (.dataAnswer resp w)) (.fetching f) (.fetching f') = true := by
  rw [isListed, hstep, Option.isSome_iff_ne_none.2 h]
  rfl

theorem isFetched_of_fetches {s : Contents} {resp : FileContentsResponse} (hstep : f.step = .contents s)
    (h : resp.streamId = s.stream) : isFetched (some (.contentsAnswer resp)) (.fetching f) (.fetching f') = true := by
  rw [isFetched, hstep, h]
  exact beq_self_eq_true _

theorem accepts_quiet (h : ∀ resp, hd = some (.contentsAnswer resp) → ∀ f s, p.Fetches f s → resp.streamId ≠ s.stream) :
    isListed hd p p = false ∧ isFetched hd p p = false := by
  constructor
  · unfold isListed
    split
    · rename_i f
      cases f.step.holds <;> rfl
    · rfl
  · unfold isFetched
    split
    · rename_i resp f
      cases hs : f.step with
      | contents s =>
        have hne := h resp rfl f s ⟨rfl, hs⟩
        simpa [Step.stream?] using Ne.symm hne
      | descriptor | scanning => rfl
    · rfl

theorem accepts_over (hd : Option Heard) (h : ∀ f, p' ≠ .fetching f) :
    isListed hd p p' = false ∧ isFetched hd p p' = false := by
  constructor
  · unfold isListed
    split
    · exact absurd rfl (h _)
    · rfl
  · unfold isFetched
    split
    · exact absurd rfl (h _)
    · rfl

theorem Count.add_nothing (h : rs.filterMap Report.started? = []) : n.add rs false false = n := by
  simp [Count.add, h]

theorem Progress.snoc {env : Env} {d : Dir} {long : Bool} {ls : List Body} (h : Progress n p) (ha : Accounted F p)
    (htold : Told env d long hd p p' rs ls) (hno : ∀ l w, hd ≠ some (.list l w)) :
    Progress (n.add rs (isListed hd p p') (isFetched hd p p')) p' := by
  have hover : ∀ {p₁ : Phase}, (∀ f, p₁ ≠ .fetching f) → rs.filterMap Report.started? = [] →
      Progress (n.add rs (isListed hd p p₁) (isFetched hd p p₁)) p₁ := by
    intro p₁ hp₁ hrs
    obtain ⟨hl, hf⟩ := accepts_over (p := p) hd hp₁
    rw [hl, hf, Count.add_nothing hrs]
    exact .ended hp₁ (h.bounded ha)
  cases htold with
  | plain heard | unhealthy heard | offer heard => exact absurd heard (hno _ _)
  | @listed resp whole f f' files staging staging' heard waiting accepted list goes =>
    obtain ⟨rfl, hstep⟩ := waiting
    subst heard
    have hnone : f.step.holds = none := by rw [hstep]; rfl
    cases h with
    | waiting step announced listed fetched =>
      refine .fetching goes.holds ?_ ?_ ?_
      · simp [Count.add, announced, Report.started?]
      · rw [Count.add, listed, isListed_of_waiting hstep (by simp [goes.holds])]
        rfl
      · simp [Count.add, fetched, isFetched]
    | fetching step =>
      rw [hnone] at step
      cases step
    | ended idle => exact absurd rfl (idle f)
  | @fetched resp f f' s file held heard fetches takes list goes =>
    obtain ⟨rfl, hstep⟩ := fetches
    subst heard
    have hholds : f.step.holds = some (s.files, s.data) := by rw [hstep]; rfl
    cases h with
    | waiting step =>
      rw [hholds] at step
      cases step
    | fetching step announced listed fetched =>
      cases hholds.symm.trans step
      refine .fetching goes.holds ?_ ?_ ?_
      · simp [Count.add, announced]
      · simp [Count.add, listed, isListed]
      · have hpos : 0 < resp.data.length := List.length_pos_iff.2 takes.nonempty
        rw [bytesIn_set takes.hheld, Count.add, isFetched_of_fetches hstep takes.stream]
        exact Nat.add_le_add fetched hpos
    | ended idle => exact absurd rfl (idle f)
  | @verdict generation index v f s verdicts heard scans =>
    obtain ⟨rfl, hstep⟩ := scans
    subst heard
    have hholds : f.step.holds = some (s.files, s.data) := by rw [hstep]; rfl
    rw [show isListed _ _ _ = false from rfl, show isFetched _ _ _ = false from rfl, Count.add_nothing rfl]
    cases h with
    | waiting step =>
      rw [hholds] at step
      cases step
    | fetching step announced listed fetched =>
      cases hholds.symm.trans step
      exact .fetching rfl announced listed fetched
    | ended idle => exact absurd rfl (idle f)
  | passed | refused => exact hover nofun rfl
  | quiet other ignored =>
    obtain ⟨hl, hf⟩ := accepts_quiet ignored
    rw [hl, hf, Count.add_nothing rfl]
    exact h

end Progress

/-! ## Deadlines -/

def clock (e : Entry Session Label) : Nat := e.label.env.now

/-- The rounds that take an offer further: the one that makes it and those that accept something. -/
def steps (d : Dir) (e : Entry Session Label) (seg : Trace) : Trace :=
  e :: seg.filter fun x => acceptsList d x || acceptsContents d x

theorem steps_snoc (d : Dir) (e x : Entry Session Label) (seg : Trace) :
    steps d e (seg ++ [x]) =
      if acceptsList d x || acceptsContents d x then steps d e seg ++ [x] else steps d e seg := by
  rw [steps, List.filter_append, steps]
  cases h : (acceptsList d x || acceptsContents d x) <;> simp [h]

/-- The deadlines of a run are served: nothing else is handled once one has passed. -/
structure Served (timeout : Nat) (tr : Trace) : Prop where
  timeout : ∀ e ∈ tr, e.label.env.scanTimeout = timeout
  due : ∀ e ∈ tr, e.label.event ≠ .deadline → ∀ d f, (e.pre.clip.direction d).phase = .fetching f →
    clock e ≤ f.deadline

theorem Served.mono {timeout : Nat} {tr tr' : Trace} (h : Served timeout tr) (hsub : ∀ e ∈ tr', e ∈ tr) :
    Served timeout tr' :=
  ⟨fun e he => h.timeout e (hsub e he), fun e he => h.due e (hsub e he)⟩

/-- Each step came within the time an answer may take, and the deadline is that of the last. -/
structure Timing (timeout : Nat) (st : Trace) (p : Phase) : Prop where
  chain : st.IsChain fun x y => clock y ≤ clock x + answerTime
  deadline : ∀ f, p = .fetching f → ∃ x, st.getLast? = some x ∧ f.deadline = clock x + f.step.wait timeout

section Timing

variable {timeout : Nat} {st : Trace} {p p' : Phase} {e : Entry Session Label} {d : Dir}

theorem Timing.keep (h : Timing timeout st p)
    (hp : ∀ f', p' = .fetching f' → ∃ f, p = .fetching f ∧ f'.deadline = f.deadline ∧
      f'.step.wait timeout = f.step.wait timeout) : Timing timeout st p' := by
  refine ⟨h.chain, fun f' hf' => ?_⟩
  obtain ⟨f, hf, hdeadline, hwait⟩ := hp f' hf'
  obtain ⟨x, hx, hlast⟩ := h.deadline f hf
  exact ⟨x, hx, by rw [hdeadline, hwait, hlast]⟩

theorem Timing.further {f f' : Fetch} (h : Timing timeout st (.fetching f)) (hdue : clock e ≤ f.deadline)
    (hwait : f.step.wait timeout = answerTime) (hnew : f'.deadline = clock e + f'.step.wait timeout) :
    Timing timeout (st ++ [e]) (.fetching f') := by
  obtain ⟨x, hx, hlast⟩ := h.deadline f rfl
  refine ⟨List.isChain_append.2 ⟨h.chain, List.isChain_singleton _, ?_⟩, ?_⟩
  · rintro y hy z hz
    cases hx.symm.trans hy
    cases hz
    rwa [← hwait, ← hlast]
  · rintro f'' ⟨⟩
    exact ⟨e, List.getLast?_concat .., hnew⟩

theorem Timing.snoc {long : Bool} {hd : Option Heard} {rs : List Report} {ls : List Body} (h : Timing timeout st p)
    (htold : Told e.label.env d long hd p p' rs ls) (hno : ∀ l w, hd ≠ some (.list l w))
    (htimeout : e.label.env.scanTimeout = timeout) (hdue : hd ≠ none → ∀ f, p = .fetching f → clock e ≤ f.deadline) :
    Timing timeout (if isListed hd p p' || isFetched hd p p' then st ++ [e] else st) p' := by
  have hover : ∀ {p₁ : Phase}, (∀ f, p₁ ≠ .fetching f) →
      Timing timeout (if isListed hd p p₁ || isFetched hd p p₁ then st ++ [e] else st) p₁ := by
    intro p₁ hp₁
    obtain ⟨hl, hf⟩ := accepts_over (p := p) hd hp₁
    rw [hl, hf]
    exact ⟨h.chain, fun f hf => absurd hf (hp₁ f)⟩
  cases htold with
  | plain heard | unhealthy heard | offer heard => exact absurd heard (hno _ _)
  | listed heard waiting accepted list goes =>
    obtain ⟨rfl, hstep⟩ := waiting
    subst heard
    rw [isListed_of_waiting hstep (by simp [goes.holds])]
    exact h.further (hdue (by simp) _ rfl) (by rw [hstep]; rfl) (htimeout ▸ goes.deadline)
  | fetched heard fetches takes list goes =>
    obtain ⟨rfl, hstep⟩ := fetches
    subst heard
    rw [isFetched_of_fetches hstep takes.stream, Bool.or_true]
    exact h.further (hdue (by simp) _ rfl) (by rw [hstep]; rfl) (htimeout ▸ goes.deadline)
  | verdict heard scans =>
    obtain ⟨rfl, hstep⟩ := scans
    subst heard
    refine h.keep ?_
    rintro f' ⟨⟩
    exact ⟨_, rfl, rfl, by rw [hstep]; rfl⟩
  | passed | refused => exact hover nofun
  | quiet other ignored =>
    obtain ⟨hl, hf⟩ := accepts_quiet ignored
    rw [hl, hf]
    exact h

end Timing

variable {d : Dir} {whole : Whole}

variable {f : Fetch} {p : Phase} {e : Entry Session Label}

theorem Clip.expireDir_late {env : Env} {c c' : Clip} (h : c.expireDir env d = .ok c')
    (hp : (c.direction d).phase = .fetching f) (hlate : f.deadline ≤ env.now) : (c'.direction d).phase = .idle := by
  rw [expireDir, hp] at h
  obtain ⟨us, -, hv, -⟩ := refuseFiles_ok ((if_pos hlate).symm.trans h)
  exact congrArg View.phase hv

theorem idle_of_late {s s' : Session} {l : Label} (h : s.step l = some s') (hev : l.event = .deadline)
    (hp : (s.clip.direction d).phase = .fetching f) (hlate : f.deadline ≤ l.env.now) :
    (s'.clip.direction d).phase = .idle := by
  have hc := (Session.step_eq_some h).2.1
  rw [Session.handle, hev] at hc
  have hc : s.clip.taken.expire l.env = .ok s'.clip := hc
  unfold Clip.expire at hc
  cases hup : s.clip.taken.expireDir l.env .upload with
  | error e =>
    rw [hup] at hc
    cases hc
  | ok m =>
    rw [hup] at hc
    have hdown : m.expireDir l.env .download = .ok s'.clip := hc
    cases d with
    | upload =>
      have hkept : s'.clip.direction .upload = m.direction .upload := (Clip.expireDir_ok hdown).other
      rw [hkept]
      exact Clip.expireDir_late hup hp hlate
    | download =>
      have hkept : m.direction .download = s.clip.taken.direction .download := (Clip.expireDir_ok hup).other
      exact Clip.expireDir_late hdown (hkept ▸ hp) hlate

/-! ## Lives -/

section Lives

variable {staging : Staging} {d : Dir} {whole : Whole} {timeout : Nat} {pre seg : Trace} {e : Entry Session Label}
  {s : Session}

variable {tr : Trace}

theorem tells_of_step {s' : Session} {l : Label} (hrun : SessionRun staging tr s) (hstep : s.step l = some s')
    (d : Dir) : Tells d ⟨s, l, s'⟩ :=
  (Session.round hstep).told (listKept hrun) d

variable {x : Entry Session Label}

theorem hno_of_not_lists (h : ¬ Lists d x) :
    ∀ l w, x.label.event.about d ≠ some (.list l w) := fun l w heq => h ⟨l, w, heq⟩

theorem ne_deadline_of_about {hd : Heard} (h : x.label.event.about d = some hd) : x.label.event ≠ .deadline := by
  intro hev
  rw [hev] at h
  cases h

theorem Served.inTime (h : Served timeout tr) (he : e ∈ tr) (htells : Tells d e)
    (hstep : e.pre.step e.label = some e.post) :
    ∀ f, (e.post.clip.direction d).phase = .fetching f → clock e ≤ f.deadline := by
  intro f hf
  unfold Tells at htells
  rw [hf] at htells
  generalize hp : (e.pre.clip.direction d).phase = p at htells
  generalize e.post.clip.reportsOf d = rs, e.post.clip.listsTo d = ls at htells
  cases htells with
  | offer => exact Nat.le_add_right _ _
  | listed heard waiting accepted list goes => exact goes.deadline ▸ Nat.le_add_right _ _
  | fetched heard fetches takes list goes => exact goes.deadline ▸ Nat.le_add_right _ _
  | @verdict _ _ _ f _ _ heard scans => exact h.due e he (ne_deadline_of_about heard) d f (hp.trans scans.1)
  | quiet =>
    by_cases hev : e.label.event = .deadline
    · by_contra hlt
      cases hf.symm.trans (idle_of_late hstep hev hp (Nat.le_of_not_le hlt))
    · exact h.due e he hev d f hp

theorem Offers.cases (h : Offers d whole e) (htold : Tells d e) :
    acceptsList d e = false ∧ acceptsContents d e = false ∧
      ((∃ reason us, (e.post.clip.direction d).phase = .idle ∧ e.post.clip.reportsOf d = [.refused d [] reason] ∧
        e.post.clip.listsTo d = [.own (.formatList .newUnicodeEmpty) us]) ∨
      ∃ f, (e.post.clip.direction d).phase = .fetching f ∧ f.list = whole ∧ f.step = .descriptor ∧
        f.deadline = clock e + answerTime ∧ e.post.clip.reportsOf d = [] ∧ e.post.clip.listsTo d = []) := by
  obtain ⟨list, fileList, habout, hformat⟩ := h
  unfold Tells at htold
  rw [habout] at htold
  exact ⟨by rw [acceptsList, habout]; rfl, by rw [acceptsContents, habout]; rfl, htold.of_offer hformat⟩

theorem Offers.standing (h : Offers d whole e) (htold : Tells d e) :
    Standing d whole [e] (e.post.clip.direction d).phase := by
  obtain ⟨-, -, ⟨reason, us, hp, hrs, hls⟩ | ⟨f, hp, hlist, hstep, hdeadline, hrs, hls⟩⟩ := h.cases htold
  · rw [hp]
    exact .ended nofun (Open.nil.close (.refused hrs hls))
  · rw [hp]
    exact .pending hlist (Open.nil.snoc (by simp [hrs]) hls)

theorem Offers.progress (h : Offers d whole e) (htold : Tells d e) :
    Progress (count d [e]) (e.post.clip.direction d).phase := by
  have hcount := count_snoc d [] e
  obtain ⟨hl, hf, ⟨reason, us, hp, hrs, hls⟩ | ⟨f, hp, hlist, hstep, hdeadline, hrs, hls⟩⟩ := h.cases htold
  · rw [hl, hf, hrs] at hcount
    rw [hp]
    exact .ended nofun (hcount ▸ .none rfl rfl rfl)
  · rw [hl, hf, hrs] at hcount
    rw [hp]
    exact hcount ▸ .waiting (by rw [hstep]; rfl) rfl rfl rfl

theorem Offers.timing (h : Offers d whole e) (htold : Tells d e) :
    Timing timeout [e] (e.post.clip.direction d).phase := by
  refine ⟨List.isChain_singleton _, fun f' hf' => ⟨e, rfl, ?_⟩⟩
  obtain ⟨-, -, ⟨reason, us, hp, hrs, hls⟩ | ⟨f, hp, hlist, hstep, hdeadline, hrs, hls⟩⟩ := h.cases htold
  · cases hp.symm.trans hf'
  · cases hp.symm.trans hf'
    rw [hdeadline, hstep]
    rfl

theorem life (hrun : SessionRun staging (pre ++ e :: seg) s) (hoffer : Offers d whole e)
    (hseg : ∀ x ∈ seg, ¬ Lists d x) :
    Standing d whole (e :: seg) (s.clip.direction d).phase ∧
      Progress (count d (e :: seg)) (s.clip.direction d).phase := by
  obtain ⟨hfirst, hrest⟩ := hrun.after
  refine hrest.history ?_ ?_ hseg
  · intro _
    have htold : Tells d e := tells_of_step hrun.before.1 hrun.before.2 d
    exact ⟨hoffer.standing htold, hoffer.progress htold⟩
  · intro seg s l s' hseg' ih hstep hno
    obtain ⟨hstanding, hprogress⟩ := ih fun x hx => hno x (List.mem_append_left _ hx)
    have hrun' : SessionRun staging (pre ++ [e] ++ seg) s := hfirst.append hseg'
    have htold := tells_of_step hrun' hstep d
    have hlist := hno_of_not_lists (hno ⟨s, l, s'⟩ (by simp))
    rw [← List.cons_append, count_snoc]
    exact ⟨hstanding.snoc htold hlist rfl rfl, hprogress.snoc (accounted hrun' d) htold hlist⟩

theorem life_timing (hrun : SessionRun staging (pre ++ e :: seg) s) (hserved : Served timeout (pre ++ e :: seg))
    (hoffer : Offers d whole e) (hseg : ∀ x ∈ seg, ¬ Lists d x) :
    Timing timeout (steps d e seg) (s.clip.direction d).phase := by
  obtain ⟨hfirst, hrest⟩ := hrun.after
  have hserved : Served timeout seg :=
    hserved.mono fun x hx => List.mem_append_right _ (List.mem_cons_of_mem _ hx)
  refine hrest.history ?_ ?_ hseg hserved
  · intro _ _
    exact hoffer.timing (tells_of_step hrun.before.1 hrun.before.2 d)
  · intro seg s l s' hseg' ih hstep hno hserved
    have hbefore := ih (fun x hx => hno x (List.mem_append_left _ hx))
      (hserved.mono fun x hx => List.mem_append_left _ hx)
    have hlast : (⟨s, l, s'⟩ : Entry Session Label) ∈ seg ++ [⟨s, l, s'⟩] := by simp
    have htold := tells_of_step (hfirst.append hseg') hstep d
    rw [steps_snoc]
    refine hbefore.snoc htold (hno_of_not_lists (hno _ hlast)) (hserved.timeout _ hlast) fun hhd f hf => ?_
    refine hserved.due _ hlast (fun hev => hhd ?_) d f hf
    rw [hev]
    rfl

theorem Told.still {env : Env} {long : Bool} {hd : Option Heard} {p p' : Phase} {rs : List Report} {ls : List Body}
    (h : Told env d long hd p p' rs ls) (hno : ∀ l w, hd ≠ some (.list l w)) (hp : ∀ f, p ≠ .fetching f) :
    p' = p ∧ rs = [] ∧ ls = [] := by
  cases h with
  | plain heard | unhealthy heard | offer heard => exact absurd heard (hno _ _)
  | listed heard waiting => exact absurd waiting.1 (hp _)
  | fetched heard fetches => exact absurd fetches.1 (hp _)
  | verdict heard scans | passed heard scans => exact absurd scans.1 (hp _)
  | refused other fetching => exact absurd fetching (hp _)
  | quiet => exact ⟨rfl, rfl, rfl⟩

theorem still {m : Session} (hfirst : SessionRun staging tr m)
    (hrest : Run (fun s l s' => s.step l = some s') m seg s) (hm : ∀ f, (m.clip.direction d).phase ≠ .fetching f)
    (hseg : ∀ x ∈ seg, ¬ Lists d x) : reportsIn d seg = [] ∧ listsIn d seg = [] := by
  have hall : (∀ f, (s.clip.direction d).phase ≠ .fetching f) ∧ reportsIn d seg = [] ∧ listsIn d seg = [] := by
    refine hrest.history ?_ ?_ hseg
    · exact fun _ => ⟨hm, rfl, rfl⟩
    · intro seg s l s' hseg' ih hstep hno
      obtain ⟨hidle, hreports, hlists⟩ := ih fun x hx => hno x (List.mem_append_left _ hx)
      have htold := tells_of_step (hfirst.append hseg') hstep d
      obtain ⟨hp, hrs, hls⟩ := htold.still (hno_of_not_lists (hno ⟨s, l, s'⟩ (by simp))) hidle
      refine ⟨fun f hf => hidle f (hp.symm.trans hf), ?_, ?_⟩
      · rw [reportsIn_snoc, hreports, hrs]
        rfl
      · rw [listsIn_snoc, hlists, hls]
        rfl
  exact hall.2

end Lives

/-! ## Every offer ends once -/

theorem Open.not_closed {life : Trace} (h : Open d life) : ¬ Closed d whole life := by
  rintro ⟨before, e, after, rfl, -, hend, -, -⟩
  have hmem : ∀ r ∈ e.post.clip.reportsOf d, ∃ files, r = .started d files := fun r hr =>
    h.reports r (List.mem_flatMap.2 ⟨e, by simp, hr⟩)
  cases hend with
  | passed reports lists =>
    obtain ⟨files, hr⟩ := hmem _ (reports ▸ List.mem_singleton_self _)
    cases hr
  | refused reports lists =>
    obtain ⟨files, hr⟩ := hmem _ (reports ▸ List.mem_singleton_self _)
    cases hr

theorem Standing.outcome {life : Trace} (h : Standing d whole life p) : Open d life ∨ Closed d whole life := by
  cases h with
  | pending list stays => exact .inl stays
  | ended idle closed => exact .inr closed

theorem Standing.fetching {life : Trace} (h : Standing d whole life p) (hopen : Open d life) :
    ∃ f, p = .fetching f := by
  cases h with
  | pending => exact ⟨_, rfl⟩
  | ended idle closed => exact absurd closed hopen.not_closed

theorem Count.Bounded.le {n : Count} {files : List (Text × Nat)} (h : n.Bounded) (hfiles : n.announced = [files]) :
    n.listed + n.fetched ≤ (files.map Prod.snd).sum + 1 := by
  cases h with
  | none announced =>
    rw [hfiles] at announced
    cases announced
  | one announced listed fetched =>
    cases hfiles.symm.trans announced
    omega

theorem clock_le_of_isChain {t : Nat} : ∀ {e x : Entry Session Label} {tr : Trace},
    (e :: tr).IsChain (fun x y => clock y ≤ clock x + t) → (e :: tr).getLast? = some x →
      clock x ≤ clock e + t * tr.length
  | e, x, [], _, hx => by
    cases hx
    exact Nat.le_add_right _ _
  | e, x, y :: tr, h, hx => by
    obtain ⟨hy, h⟩ := List.isChain_cons_cons.1 h
    rw [List.getLast?_cons_cons] at hx
    have hrest := clock_le_of_isChain h hx
    rw [List.length_cons, Nat.mul_succ]
    omega

theorem length_filter_or_le {α : Type} (p q : α → Bool) (l : List α) :
    (l.filter fun x => p x || q x).length ≤ l.countP p + l.countP q := by
  induction l with
  | nil => exact le_rfl
  | cons x l ih =>
    rw [List.filter_cons, List.countP_cons, List.countP_cons]
    cases p x <;> cases q x <;> simp only [Bool.or_false, Bool.or_true, Bool.false_eq_true, if_true, if_false,
      List.length_cons] <;> omega

/-- What the rounds `e :: seg` from a Format List that offers files, without another one, show: the
offer is open or one round has ended it, not both; one file list at most was accepted, and no more
content responses than it declares bytes; every step came within the time an answer may take; and
as long as the offer is open the last round is within that time of the last step, or of the time
the scanner has as well, and so within a time that the declared bytes bound. -/
structure EndsOnce (d : Dir) (timeout : Nat) (whole : Whole) (e : Entry Session Label) (seg : Trace) : Prop where
  outcome : Open d (e :: seg) ∨ Closed d whole (e :: seg)
  once : Open d (e :: seg) → ¬ Closed d whole (e :: seg)
  bounded : (count d (e :: seg)).Bounded
  paced : (steps d e seg).IsChain fun x y => clock y ≤ clock x + answerTime
  timely : Open d (e :: seg) → ∀ z, (e :: seg).getLast? = some z → ∃ x, (steps d e seg).getLast? = some x ∧
    (clock z ≤ clock x + answerTime ∨
      (∃ f sc, (z.post.clip.direction d).phase.Scans f sc) ∧ clock z ≤ clock x + (timeout + answerTime))
  total : Open d (e :: seg) → ∀ z, (e :: seg).getLast? = some z → ∀ files, (count d (e :: seg)).announced = [files] →
    clock z ≤ clock e + answerTime * ((files.map Prod.snd).sum + 2) + timeout

section EndsOnce

variable {staging : Staging} {d : Dir} {whole : Whole} {timeout : Nat} {pre seg : Trace} {e : Entry Session Label}
  {s : Session}

theorem open_inTime (hrun : SessionRun staging (pre ++ e :: seg) s) (hserved : Served timeout (pre ++ e :: seg))
    (hoffer : Offers d whole e) (hseg : ∀ x ∈ seg, ¬ Lists d x) (hopen : Open d (e :: seg))
    {z : Entry Session Label} (hz : (e :: seg).getLast? = some z) :
    ∃ f x, (z.post.clip.direction d).phase = .fetching f ∧ (steps d e seg).getLast? = some x ∧
      clock z ≤ clock x + f.step.wait timeout := by
  obtain ⟨init, hinit⟩ := List.getLast?_eq_some_iff.1 hz
  have hrun' := hrun
  rw [hinit, ← List.append_assoc] at hrun'
  obtain ⟨hbefore, hstep, rfl⟩ := hrun'.of_snoc
  obtain ⟨f, hf⟩ := (life hrun hoffer hseg).1.fetching hopen
  obtain ⟨x, hx, hdeadline⟩ := (life_timing hrun hserved hoffer hseg).deadline f hf
  have hmem : z ∈ pre ++ e :: seg := by
    rw [hinit]
    simp
  exact ⟨f, x, hf, hx, hdeadline ▸ hserved.inTime hmem (tells_of_step hbefore hstep d) hstep f hf⟩

theorem endsOnce (hrun : SessionRun staging (pre ++ e :: seg) s) (hserved : Served timeout (pre ++ e :: seg))
    (hoffer : Offers d whole e) (hseg : ∀ x ∈ seg, ¬ Lists d x) : EndsOnce d timeout whole e seg := by
  obtain ⟨hstanding, hprogress⟩ := life hrun hoffer hseg
  have hbounded := hprogress.bounded (accounted hrun d)
  have htiming := life_timing hrun hserved hoffer hseg
  refine ⟨hstanding.outcome, Open.not_closed, hbounded, htiming.chain, ?_, ?_⟩
  · intro hopen z hz
    obtain ⟨f, x, hf, hx, hle⟩ := open_inTime hrun hserved hoffer hseg hopen hz
    refine ⟨x, hx, ?_⟩
    cases hs : f.step with
    | descriptor | contents => exact .inl (by rw [hs] at hle; exact hle)
    | scanning sc => exact .inr ⟨⟨f, sc, hf, hs⟩, by rw [hs] at hle; exact hle⟩
  · intro hopen z hz files hfiles
    obtain ⟨f, x, hf, hx, hle⟩ := open_inTime hrun hserved hoffer hseg hopen hz
    have hlast := clock_le_of_isChain htiming.chain hx
    have hwait : f.step.wait timeout ≤ timeout + answerTime := by
      cases f.step with
      | descriptor | contents => exact Nat.le_add_left _ _
      | scanning => exact le_rfl
    have hsteps : (seg.filter fun x => acceptsList d x || acceptsContents d x).length ≤
        (files.map Prod.snd).sum + 1 := by
      calc _ ≤ seg.countP (acceptsList d) + seg.countP (acceptsContents d) := length_filter_or_le ..
        _ ≤ (count d (e :: seg)).listed + (count d (e :: seg)).fetched :=
          Nat.add_le_add (List.sublist_cons_self e seg).countP_le (List.sublist_cons_self e seg).countP_le
        _ ≤ (files.map Prod.snd).sum + 1 := hbounded.le hfiles
    have hmul := Nat.mul_le_mul_left answerTime hsteps
    have hsplit : answerTime * ((files.map Prod.snd).sum + 2) =
        answerTime * ((files.map Prod.snd).sum + 1) + answerTime := Nat.mul_succ ..
    omega

theorem plain_once (hrun : SessionRun staging (pre ++ e :: seg) s) (hplain : Plain d whole e)
    (hseg : ∀ x ∈ seg, ¬ Lists d x) : reportsIn d (e :: seg) = [] ∧ listsIn d (e :: seg) = [.passed whole] := by
  obtain ⟨list, habout, hformat⟩ := hplain
  obtain ⟨hfirst, hrest⟩ := hrun.after
  have htold : Tells d e := tells_of_step hrun.before.1 hrun.before.2 d
  unfold Tells at htold
  rw [habout] at htold
  obtain ⟨hp, hrs, hls⟩ := htold.of_plain hformat
  obtain ⟨hreports, hlists⟩ := still hfirst hrest (by rw [hp]; exact nofun) hseg
  constructor
  · show e.post.clip.reportsOf d ++ reportsIn d seg = []
    rw [hrs, hreports]
    rfl
  · show e.post.clip.listsTo d ++ listsIn d seg = _
    rw [hls, hlists]
    rfl

/-- Every offer of files ends once, in bounded time. In every run whose deadlines are served: the
rounds from a Format List that offers files, as long as no other list comes, have the offer open or
ended by one round, in the time `EndsOnce` gives; what the sender's next list supersedes is an offer still
open, of which nothing more is told, since the rounds from a list without files tell nothing but
that list and those before any list tell nothing at all. -/
theorem offer_ends_once {tr : Trace} (hrun : SessionRun staging tr s) (hserved : Served timeout tr) :
    (∀ pre e seg rest whole, tr = pre ++ e :: seg ++ rest → Offers d whole e → (∀ x ∈ seg, ¬ Lists d x) →
      EndsOnce d timeout whole e seg) ∧
    (∀ pre e seg rest whole, tr = pre ++ e :: seg ++ rest → Plain d whole e → (∀ x ∈ seg, ¬ Lists d x) →
      reportsIn d (e :: seg) = [] ∧ listsIn d (e :: seg) = [.passed whole]) ∧
    ∀ seg rest, tr = seg ++ rest → (∀ x ∈ seg, ¬ Lists d x) → reportsIn d seg = [] ∧ listsIn d seg = [] := by
  refine ⟨?_, ?_, ?_⟩
  · rintro pre e seg rest whole rfl hoffer hseg
    obtain ⟨m, hrun', -⟩ := hrun.split
    exact endsOnce hrun' (hserved.mono fun x hx => List.mem_append_left _ hx) hoffer hseg
  · rintro pre e seg rest whole rfl hplain hseg
    obtain ⟨m, hrun', -⟩ := hrun.split
    exact plain_once hrun' hplain hseg
  · rintro seg rest rfl hseg
    obtain ⟨m, hrun', -⟩ := hrun.split
    exact still .nil hrun' (by cases d <;> exact nofun) hseg

end EndsOnce

/-- What an entry says about a direction is a list that offers files, given in this PDU. -/
def offersAt (d : Dir) (whole : Whole) (e : Entry Session Label) : Bool :=
  match e.label.event.about d with
  | some (.list list w) => decide (w = whole) && (offersFiles e.pre.clip.longNames list).isSome
  | _ => false

def listsAt (d : Dir) (e : Entry Session Label) : Bool :=
  match e.label.event.about d with
  | some (.list ..) => true
  | _ => false

theorem offers_of_offersAt (h : offersAt d whole e = true) : Offers d whole e := by
  unfold offersAt at h
  split at h
  · rename_i list w habout
    rw [Bool.and_eq_true, decide_eq_true_eq, Option.isSome_iff_exists] at h
    obtain ⟨rfl, fileList, hformat⟩ := h
    exact ⟨list, fileList, habout, hformat⟩
  · cases h

theorem not_lists_of_listsAt (h : listsAt d e = false) : ¬ Lists d e := by
  rintro ⟨list, whole, habout⟩
  rw [listsAt, habout] at h
  cases h

theorem served_of_all {timeout : Nat} {tr : Trace}
    (h : (tr.all fun e => decide (e.label.env.scanTimeout = timeout) && [Dir.upload, Dir.download].all fun d =>
      match (e.pre.clip.direction d).phase with
      | .fetching f => decide (clock e ≤ f.deadline)
      | _ => true) = true) : Served timeout tr := by
  have hall := fun e he => Bool.and_eq_true .. ▸ List.all_eq_true.1 h e he
  refine ⟨fun e he => of_decide_eq_true (hall e he).1, fun e he _ d f hf => ?_⟩
  have hd := List.all_eq_true.1 (hall e he).2 d (by cases d <;> simp)
  rw [hf] at hd
  exact of_decide_eq_true hd

/-- One file, offered, fetched in one response and found clean. -/
theorem offer_ends_once_oneFile : ∃ e seg s whole, SessionRun ⟨0, 100⟩ (e :: seg) s ∧ seg.length = 3 ∧
    Offers .upload whole e ∧ EndsOnce .upload 10 whole e seg := by
  obtain ⟨s, hrun, -⟩ := scripted_state ⟨0, 100⟩ oneFile (fun _ => true) (by decide +kernel)
  have hserved : Served 10 (scripted ⟨0, 100⟩ oneFile) := served_of_all (by decide +kernel)
  have hscript : ((scripted ⟨0, 100⟩ oneFile).head?.any (offersAt .upload
        (sent (.formatList (.newUnicodeLong [⟨0xC0A1, some fileListName⟩])))) &&
      (scripted ⟨0, 100⟩ oneFile).tail.all (fun x => !listsAt .upload x) &&
      decide ((scripted ⟨0, 100⟩ oneFile).length = 4)) = true := by decide +kernel
  generalize scripted ⟨0, 100⟩ oneFile = tr at hrun hserved hscript
  cases tr with
  | nil => cases hscript
  | cons e seg =>
    simp only [Bool.and_eq_true, List.head?_cons, Option.any_some, List.tail_cons, decide_eq_true_eq] at hscript
    obtain ⟨⟨hoffer, hrest⟩, hlen⟩ := hscript
    have hoffer := offers_of_offersAt hoffer
    have hno : ∀ x ∈ seg, ¬ Lists .upload x := by
      intro x hx
      refine not_lists_of_listsAt ?_
      simpa using List.all_eq_true.1 hrest x hx
    exact ⟨e, seg, s, _, hrun, Nat.succ.inj hlen, hoffer,
      (offer_ends_once hrun hserved).1 [] e seg [] _ (by simp) hoffer hno⟩

end WebAccess.Scan
