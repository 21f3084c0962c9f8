/-
To whom the file scan tells. A report pushes its notice and writes its lines inside the relay, outside the gate,
and asks neither which database is in place nor whether its connection has been ended; the notices are kept under
the user's number, and an import leaves them. So what is told stays with the user it is about, and in the database
the connection was admitted from, in every run in which an import finds no notice, no report under way and no
connection that is open; where one is found, it may reach a user of the imported database.
-/
import WebAccess.Serve.Tickets

namespace WebAccess

open Codec Wire Process Transition

/-! ## What requests tell -/

/-- Notices are pushed by reports only, for the user of the connection and with its database and the report's text. -/
def Request.Tells (r : Request) (c : Call) : Prop :=
  ∀ userId text bad database, c = .pushNotice userId text bad database → ∃ user server what,
    r = .report user server database what ∧ user.id = userId ∧ noticeText server what = (text, bad)

theorem tells_auditEach (r : Request) (username : Text) :
    ∀ lines : List (Text × Text), (auditEach username lines).Makes r.Tells
  | [] => trivial
  | _ :: lines => makes_call nofun fun _ => tells_auditEach r username lines

theorem tells_program (r : Request) : r.program.Makes r.Tells := by
  cases r with
  | report user server database what =>
    refine Prog.Makes.bind (makes_call ?_ fun _ => tells_auditEach _ _ _) fun _ => trivial
    rintro _ _ _ _ ⟨⟩
    exact ⟨user, server, what, rfl, rfl, rfl⟩
  | http r sent =>
    refine Prog.Makes.mono (fun c hc => ?_) (Request.within_program _)
    rintro userId text bad database rfl
    refine absurd rfl (hc.tag_ne (?_ : (Request.http r sent).footprint.contains .notice = false) nofun)
    cases r <;> rfl
  | _ =>
    refine Prog.Makes.mono (fun c hc => ?_) (Request.within_program _)
    rintro userId text bad database rfl
    exact absurd rfl (hc.tag_ne (by rfl) nofun)

def Recorded (made : List (Event Api)) : Prop := ∃ line, (⟨.audit line, ()⟩ : Event Api) ∈ made

theorem following_audit (line : AuditLine) (made : List (Event Api)) :
    (do ask (.audit line); pure true : Prog Api Bool).Obeys Following (fun made r => r = true → Recorded made) made :=
  ⟨trivial, fun _ _ => ⟨line, List.mem_concat_self⟩⟩

theorem following_recordOpen (liveId : Nat) (user : User) (target : Server) (addr : Text) :
    (Request.recordOpen liveId user target addr).program.Obeys Following
      (fun made r => ∀ reply, r = .ok reply → Recorded made) [] := by
  refine obeys_bind.2 (Prog.Obeys.mono (fun made recorded (h : recorded = true → Recorded made) => ?_) ?_)
  · cases recorded with
    | false => exact fun reply (h : Except.error _ = Except.ok reply) => by cases h
    | true => exact fun _ _ => h rfl
  · refine obeys_call trivial fun _ => obeys_bind.2 (Prog.Obeys.mono
      (fun made recorded (h : recorded = true → Recorded made) => ?_) ?_)
    · refine obeys_call trivial fun _ => ?_
      intro hr
      obtain ⟨line, hline⟩ := h hr
      exact ⟨line, List.mem_append_left _ hline⟩
    · refine obeys_call trivial fun opened => obeys_call trivial fun generation => ?_
      simp only []
      split
      · exact following_audit _ _
      · exact nofun

/-- An opening that is let through is on record. -/
def Request.Records (r : Request) (made : List (Event Api)) (result : ApiResult Reply) : Prop :=
  ∀ liveId user target addr, r = .recordOpen liveId user target addr → ∀ reply, result = .ok reply → Recorded made

theorem following_program (r : Request) : r.program.Obeys Following r.Records [] := by
  by_cases h : ∃ liveId user target addr, r = .recordOpen liveId user target addr
  · obtain ⟨liveId, user, target, addr, rfl⟩ := h
    refine (following_recordOpen liveId user target addr).mono fun made result h => ?_
    rintro _ _ _ _ ⟨⟩
    exact h
  · have hany := obeys_of_allows (P := Following) (fun _ _ => trivial) r.program []
    exact hany.mono fun _ _ _ liveId user target addr hr => absurd ⟨liveId, user, target, addr, hr⟩ h

/-- A poll asks for the notices of the user its sign-in is of, in the hold in which it has looked the sign-in up. -/
def Request.Polls (r : Request) (made : List (Event Api)) (c : Call) : Prop :=
  ∀ tokenHash after sent userId after', r = .http (.myNotices tokenHash after) sent → c = .noticesSince userId after' →
    ∃ user : User, user.id = userId ∧ made = [⟨.acquire .shared, ()⟩, ⟨.sessionUser tokenHash, some user⟩]

abbrev Polling (r : Request) : Protocol Api := .logging r.Polls

theorem polling_myNotices (tokenHash : Bytes) (after : Nat) (sent : Option Text) :
    (Request.http (.myNotices tokenHash after) sent).program.Obeys (Polling (.http (.myNotices tokenHash after) sent))
      (fun _ _ => True) [] := by
  refine obeys_call nofun fun _ => obeys_bind.2 (obeys_bind.2 (obeys_bind.2 ?_))
  refine obeys_call nofun fun found => ?_
  cases found with
  | none => exact ⟨nofun, fun _ => ⟨nofun, fun _ => trivial⟩⟩
  | some user =>
    refine obeys_call ?_ fun _ => ⟨nofun, fun _ => ⟨nofun, fun _ => trivial⟩⟩
    rintro _ _ _ userId _ ⟨⟩ ⟨⟩
    exact ⟨user, rfl, rfl⟩

theorem polling_program (r : Request) : r.program.Obeys (Polling r) (fun _ _ => True) [] := by
  by_cases h : ∃ tokenHash after sent, r = .http (.myNotices tokenHash after) sent
  · obtain ⟨tokenHash, after, sent, rfl⟩ := h
    exact polling_myNotices tokenHash after sent
  · exact obeys_of_allows (P := Polling r)
      (fun _ _ tokenHash after sent _ _ hr => absurd ⟨tokenHash, after, sent, hr⟩ h) _ _

/-! ## Where it is told -/

/-- A task reports of a connection of a user, registered in a database. -/
def Running.Reports (t : Running) (user : User) (database : Nat) : Prop :=
  ∃ server what, t.request = .report user server database what

/-- The opening of a connection is being recorded; once it is on record the database it was registered in is the one
in place. -/
def Recording (tasks : List Running) (imports id : Nat) (x : Session) (target : Server) (i : Nat) : Prop :=
  ∃ t, tasks[i]? = some t ∧ (∃ addr, t.request = .recordOpen id x.user target addr) ∧ x.database ∈ t.seen ∧
    (Recorded t.task.made → x.database = imports)

/-- What is told of a connection is told of one of the database in place: the notices that are held, the reports
under way, and the connections that can report. -/
structure Told (s : Proxy) : Prop where
  opening : ∀ (id : Nat) x target i, s.sessions[id]? = some x → x.phase = .opening target i →
    Recording s.tasks s.app.imports id x target i
  established : ∀ (id : Nat) x target, s.sessions[id]? = some x → x.phase = .established target →
    x.database = s.app.imports
  reports : ∀ t ∈ s.tasks, ∀ user database, t.Reports user database → t.task.prog.result? = none →
    database = s.app.imports ∧ ∀ n ∈ t.seen, n = s.app.imports
  notices : ∀ userId, ∀ n ∈ s.app.notices.of userId, n.database = s.app.imports

/-- Nothing the scan tells is held or on its way: no notice, no report, and no connection whose opening is being
recorded or that is established. -/
structure Quiet (s : Proxy) : Prop where
  notices : ∀ userId, s.app.notices.of userId = []
  reports : ∀ t ∈ s.tasks, ∀ user database, t.Reports user database → t.task.prog.result?.isSome = true
  opening : ∀ x ∈ s.sessions, ∀ target i, x.phase ≠ .opening target i
  established : ∀ x ∈ s.sessions, ∀ target, x.phase ≠ .established target

/-- A database is replaced only while nothing the scan tells is held or on its way. -/
def ReplacesQuietly (e : Entry Proxy Act) : Prop := e.post.app.imports ≠ e.pre.app.imports → Quiet e.pre

section Steps

variable {s s' : Proxy} {a : Act}

variable {userId : Int}

theorem mem_notices_answer {m : Holder} {w : World} {c : Call} {app : App} {n : Notice}
    (h : n ∈ (App.answer m w c app).2.notices.of userId) :
    n ∈ app.notices.of userId ∨
      c = .pushNotice userId n.text n.bad n.database ∧ n.seq = app.notices.last + 1 := by
  cases c with
  | pushNotice userId' =>
    simp only [App.answer, Notices.push] at h
    by_cases hid : userId = userId'
    · subst hid
      rw [Function.update_self] at h
      rcases mem_snoc.1 (List.mem_of_mem_drop h) with h | rfl
      · exact .inl h
      · exact .inr ⟨rfl, rfl⟩
    · rw [Function.update_of_ne hid] at h
      exact .inl h
  | _ => exact .inl h

theorem Standing.allows.notices {id : Nat} {q : Standing} {m : Holder} {w : World} {c : Call} {app : App}
    (h : q.allows id c) : (App.answer m w c app).2.notices = app.notices := by
  cases c with
  | pushNotice => exact h.elim
  | _ => rfl

namespace Told

variable {i : Nat} {w : World} {t : Running} {e : Event Api} {task : Task Api (ApiResult Reply)} {app : App}

variable {id : Nat} {x : Session}

theorem opening_call (h : Told s) (hf : Fenced s) (hg : Gated s) (ht : s.tasks[i]? = some t)
    (hmade : t.task.step (App.serve (.task i) w) s.app = some (e, task, app)) (himports : app.imports = s.app.imports)
    {j : Nat} {target : Server} (hx : s.sessions[id]? = some x) (hphase : x.phase = .opening target j) :
    Recording (s.tasks.set i (t.went s.app.imports e task)) app.imports id x target j := by
  obtain ⟨t₀, ht₀, ⟨addr, hrequest⟩, hseen, hrecorded⟩ := h.opening id x target j hx hphase
  by_cases hij : i = j
  · subst hij
    obtain rfl := Option.some_inj.1 (ht.symm.trans ht₀)
    refine ⟨_, List.getElem?_set_self (List.getElem?_eq_some_iff.1 ht).1, ⟨addr, hrequest⟩, Call.mem_sees hseen, ?_⟩
    rintro ⟨line, hline⟩
    have hline : (⟨.audit line, ()⟩ : Event Api) ∈ task.made := hline
    rw [(Task.step_eq_some hmade).2] at hline
    rw [himports]
    rcases List.mem_append.1 hline with hline | hline
    · exact hrecorded ⟨line, hline⟩
    · -- the record is being made: what the connection was admitted from is in place
      obtain rfl := List.mem_singleton.1 hline
      exact hf.seen_of_writes hg (List.mem_of_getElem? ht) hmade (by rw [hrequest]; rfl) rfl _ hseen
  · exact ⟨t₀, (List.getElem?_set_ne hij).trans ht₀, ⟨addr, hrequest⟩, hseen,
      fun hmade => (hrecorded hmade).trans himports.symm⟩

theorem reports_call (h : Told s) (hmade : t.task.step (App.serve (.task i) w) s.app = some (e, task, app))
    (ht : t ∈ s.tasks) {user : User} {database : Nat} (hreports : t.Reports user database) :
    database = s.app.imports ∧ ∀ n ∈ (t.went s.app.imports e task).seen, n = s.app.imports := by
  obtain ⟨hdatabase, hseen⟩ := h.reports t ht user database hreports (Task.result_of_step hmade)
  refine ⟨hdatabase, fun n hn => ?_⟩
  have hn : n ∈ e.call.sees s.app.imports t.seen := hn
  unfold Call.sees at hn
  split at hn
  · rcases List.mem_append.1 hn with hn | hn
    · exact hseen n hn
    · exact List.mem_singleton.1 hn
  · exact hseen n hn

theorem call (h : Told s) (hf : Fenced s) (hg : Gated s) (ht : s.tasks[i]? = some t)
    (htells : t.task.prog.Makes t.request.Tells)
    (hmade : t.task.step (App.serve (.task i) w) s.app = some (e, task, app))
    (hs' : s' = ⟨app, s.tasks.set i (t.went s.app.imports e task), s.sessions ++ spawned s.app.imports e⟩)
    (hquiet : app.imports ≠ s.app.imports → Quiet s) : Told s' := by
  have hmem := List.mem_of_getElem? ht
  -- a connection past its upgrade was there before
  have hsession : ∀ (id : Nat) x, s'.sessions[id]? = some x → x.phase ≠ .upgraded → s.sessions[id]? = some x := by
    intro id x hx hphase
    rw [hs'] at hx
    rcases sessions_spawned hx with hx | ⟨_, _, _, -, -, rfl⟩
    · exact hx
    · exact absurd rfl hphase
  have himports : ∀ {P : Prop}, (Quiet s → P) → (app.imports = s.app.imports → P) → P := fun hq hsame =>
    if heq : app.imports = s.app.imports then hsame heq else hq (hquiet heq)
  have happ : s'.app = app := by rw [hs']
  have htasks : s'.tasks = s.tasks.set i (t.went s.app.imports e task) := by rw [hs']
  refine ⟨?_, ?_, ?_, ?_⟩
  · intro id x target j hx hphase
    have hx := hsession id x hx (by rw [hphase]; exact nofun)
    rw [happ, htasks]
    refine himports (fun hq => ?_) fun heq => h.opening_call hf hg ht hmade heq hx hphase
    exact absurd hphase (hq.opening x (List.mem_of_getElem? hx) target j)
  · intro id x target hx hphase
    have hx := hsession id x hx (by rw [hphase]; exact nofun)
    rw [happ]
    refine himports (fun hq => ?_) fun heq => (h.established id x target hx hphase).trans heq.symm
    exact absurd hphase (hq.established x (List.mem_of_getElem? hx) target)
  · intro t' ht' user database hreports hresult
    rw [htasks] at ht'
    rw [happ]
    refine himports (fun hq => ?_) fun heq => ?_
    · -- nothing that reports goes on while a database is replaced
      exfalso
      rcases List.mem_or_eq_of_mem_set ht' with ht' | rfl
      · have hsome := hq.reports t' ht' user database hreports
        rw [hresult] at hsome
        cases hsome
      · have hsome := hq.reports t hmem user database hreports
        rw [Task.result_of_step hmade] at hsome
        cases hsome
    · rw [heq]
      rcases List.mem_or_eq_of_mem_set ht' with ht' | rfl
      · exact h.reports t' ht' user database hreports hresult
      · exact h.reports_call hmade hmem hreports
  · intro userId n hn
    rw [happ] at hn ⊢
    obtain ⟨-, -, hanswer⟩ := App.served hmade
    rw [hanswer] at hn
    rcases mem_notices_answer hn with hn | ⟨hcall, -⟩
    · refine himports (fun hq => ?_) fun heq => ?_
      · rw [hq.notices userId] at hn
        cases hn
      · exact (h.notices userId n hn).trans heq.symm
    · obtain ⟨user, server, what, hrequest, -⟩ := (Task.step_makes htells hmade).1 _ _ _ _ hcall
      have heq : app.imports = s.app.imports := by rw [hanswer, hcall]; rfl
      exact (h.reports_call hmade hmem ⟨server, what, hrequest⟩).1.trans heq.symm

theorem spawn {more : List Running} (h : Told s)
    (hreports : ∀ t ∈ more, ∀ user database, t.Reports user database →
      database = s.app.imports ∧ ∀ n ∈ t.seen, n = s.app.imports) : Told (s.spawn more) where
  opening id x target i hx hphase := by
    obtain ⟨t, ht, hrest⟩ := h.opening id x target i hx hphase
    exact ⟨t, (List.getElem?_append_left (List.getElem?_eq_some_iff.1 ht).1).trans ht, hrest⟩
  established := h.established
  reports t ht user database hr hresult := by
    rcases List.mem_append.1 ht with ht | ht
    · exact h.reports t ht user database hr hresult
    · exact hreports t ht user database hr
  notices := h.notices

theorem setPhase {y : Session} {phase : Phase} (h : Told s) (huser : y.user = x.user)
    (hdatabase : y.database = x.database)
    (hopening : ∀ target i, phase = .opening target i → Recording s.tasks s.app.imports id x target i)
    (hestablished : ∀ target, phase = .established target → x.database = s.app.imports) :
    Told (s.setPhase id y phase) := by
  refine ⟨?_, ?_, h.reports, h.notices⟩
  · intro id' x' target i hx' hphase
    rcases Proxy.sessions_setPhase hx' with ⟨rfl, rfl⟩ | ⟨-, hx'⟩
    · obtain ⟨t, ht, hrequest, hseen, hrecord⟩ := hopening target i hphase
      rw [← huser] at hrequest
      rw [← hdatabase] at hseen hrecord
      exact ⟨t, ht, hrequest, hseen, hrecord⟩
    · exact h.opening id' x' target i hx' hphase
  · intro id' x' target hx' hphase
    rcases Proxy.sessions_setPhase hx' with ⟨rfl, rfl⟩ | ⟨-, hx'⟩
    · exact hdatabase.trans (hestablished target hphase)
    · exact h.established id' x' target hx' hphase

theorem beside (h : Told s) (himports : app.imports = s.app.imports) (hnotices : app.notices = s.app.notices) :
    Told { s with app } where
  opening id x target i hx hphase := by
    rw [himports]
    exact h.opening id x target i hx hphase
  established id x target hx hphase := by
    rw [himports]
    exact h.established id x target hx hphase
  reports t ht user database hr hresult := by
    rw [himports]
    exact h.reports t ht user database hr hresult
  notices userId n hn := by
    rw [hnotices] at hn
    rw [himports]
    exact h.notices userId n hn

theorem step {K : Ground → Prop} (h : Told s) (hf : Fenced s) (hg : Gated s) (hsound : Sound K s)
    (htells : ∀ t ∈ s.tasks, t.task.prog.Makes t.request.Tells)
    (hrecords : ∀ t ∈ s.tasks, t.task.Obeys Following [] t.request.Records) (hstep : s.step a = some s')
    (hquiet : ReplacesQuietly ⟨s, a, s'⟩) : Told s' := by
  cases Proxy.turn hstep with
  | request r external =>
    refine h.spawn fun t ht user database ⟨server, what, hr⟩ => ?_
    obtain rfl := List.mem_singleton.1 ht
    obtain rfl : r = _ := hr
    cases external
  | call running made => exact h.call hf hg running (htells _ (List.mem_of_getElem? running)) made rfl hquiet
  | @ask id x => exact h.setPhase (x := x) rfl rfl nofun nofun
  | @admission id w x t t' e app session phase made =>
    obtain ⟨hallows, -, -⟩ := (hsound.admits id x t session phase).step made
    obtain ⟨-, -, rfl⟩ := App.served made
    have hbeside : Told { s with app := (App.answer (.session id) w e.call s.app).2 } :=
      h.beside (counters_answer (Standing.allows.tag_ne hallows)).2 (Standing.allows.notices hallows)
    have hphase : ∀ target i, Phase.ofTask t' ≠ .opening target i ∧ Phase.ofTask t' ≠ .established target := by
      intro target i
      unfold Phase.ofTask
      split <;> exact ⟨nofun, nofun⟩
    exact hbeside.setPhase (x := x) rfl rfl (fun target i heq => absurd heq (hphase target i).1)
      fun target heq => absurd heq (hphase target 0).2
  | @opens id x target addr session phase =>
    refine (h.spawn ?_).setPhase (x := x) rfl rfl ?_ nofun
    · intro t ht user database ⟨server, what, hr⟩
      obtain rfl := List.mem_singleton.1 ht
      cases hr
    · rintro _ _ ⟨⟩
      exact ⟨_, List.getElem?_concat_length, ⟨addr, rfl⟩, (hf.sessions id x session).registered, nofun⟩
  | @established id i x target session phase reply opened =>
    obtain ⟨t, ht, ⟨addr, hrequest⟩, -, hrecorded⟩ := h.opening id x target i session phase
    have hresult : t.task.prog.result? = some (.ok reply) := by
      rw [Proxy.result?, ht] at opened
      exact opened
    have hrecord := (hrecords t (List.mem_of_getElem? ht)).result hresult id x.user target addr hrequest reply rfl
    rw [Protocol.after_logging, List.nil_append] at hrecord
    have hbeside : Told (s.setLive (s.app.live.setEstablished id)) := h.beside rfl rfl
    exact hbeside.setPhase (x := x) rfl rfl nofun fun _ _ => hrecorded hrecord
  | @superseded id i x => exact h.setPhase (x := x) rfl rfl nofun nofun
  | @report id x target what session phase =>
    refine h.spawn fun t ht user database ⟨server, what', hr⟩ => ?_
    obtain rfl := List.mem_singleton.1 ht
    cases hr
    have hdatabase := h.established id x target session phase
    have hseen := (hf.sessions id x session).settled (.inr (by rw [phase]; rfl))
    exact ⟨hdatabase, fun n hn => (hseen n hn).trans hdatabase⟩
  | @close id x session =>
    have hbeside : Told (s.setLive (s.app.live.remove id).2) := h.beside rfl rfl
    refine (hbeside.spawn fun t ht user database ⟨server, what, hr⟩ => ?_).setPhase (x := x) rfl rfl nofun nofun
    obtain ⟨e, -, rfl⟩ := List.mem_map.1 ht
    cases hr

end Told

end Steps

variable {b : Boot} {trace : ProxyTrace} {s : Proxy}

theorem told_of_run (run : ProxyRun b trace s) (quiet : ∀ e ∈ trace, ReplacesQuietly e) : Told s := by
  refine run.history (fun _ => ?_) ?_ quiet
  · obtain ⟨store, vault, happ⟩ := b.app_eq
    refine ⟨by simp [Boot.start], by simp [Boot.start], by simp [Boot.start], ?_⟩
    rw [Boot.start, happ]
    rintro _ _ ⟨⟩
  · intro tr s a s' hrun ih hstep hquiet
    obtain ⟨hgated, hsound⟩ := gated_of_run hrun
    have hbefore := ih fun e he => hquiet e (List.mem_append_left _ he)
    have hrecords := obeys_of_run (P := fun _ => Following) (q := fun _ => []) hrun following_program
    exact hbefore.step (fenced_of_run hrun) hgated hsound (makes_of_run hrun tells_program) hrecords hstep
      (hquiet _ (List.mem_concat_self))

/-! ## The report a notice is of -/

def Proxy.Connected (s : Proxy) (user : User) (database : Nat) : Prop :=
  ∃ x ∈ s.sessions, x.user = user ∧ x.database = database

/-- The step at which a report pushes a notice, under the number of the user of its connection. -/
structure Pushes (e : Entry Proxy Act) (user : User) (n : Notice) : Prop where
  report : ∃ t server what, taskCall e = some (t, ⟨.pushNotice user.id n.text n.bad n.database, ()⟩) ∧
    t.request = .report user server n.database what ∧ noticeText server what = (n.text, n.bad)
  /-- No other notice has this number. -/
  seq : n.seq = e.pre.app.notices.last + 1

/-- Reports are of connections, and every notice that is held was pushed by one of the user it is held for. -/
structure Reported (trace : ProxyTrace) (s : Proxy) : Prop where
  reports : ∀ t ∈ s.tasks, ∀ user database, t.Reports user database → s.Connected user database
  notices : ∀ userId, ∀ n ∈ s.app.notices.of userId, ∃ e ∈ trace, ∃ user, user.id = userId ∧ Pushes e user n ∧
    s.Connected user n.database

section Reports

variable {tr : ProxyTrace} {s' : Proxy} {a : Act} {user : User}

theorem Proxy.Connected.step {database : Nat} (h : s.Connected user database) (hstep : s.step a = some s') :
    s'.Connected user database := by
  obtain ⟨x, hx, huser, hdatabase⟩ := h
  obtain ⟨id, hid⟩ := List.mem_iff_getElem?.1 hx
  obtain ⟨x', hx', huser', hdatabase', -⟩ := Proxy.session_stays hstep hid
  exact ⟨x', List.mem_of_getElem? hx', huser'.trans huser, hdatabase'.trans hdatabase⟩

theorem notices_of_step {K : Ground → Prop} (hsound : Sound K s) (hstep : s.step a = some s')
    {userId : Int} {n : Notice}
    (hn : n ∈ s'.app.notices.of userId) : n ∈ s.app.notices.of userId ∨ ∃ t ∈ s.tasks,
      taskCall ⟨s, a, s'⟩ = some (t, ⟨.pushNotice userId n.text n.bad n.database, ()⟩) ∧
      (t.task.prog.Makes t.request.Tells → ∃ user server what, t.request = .report user server n.database what ∧
        user.id = userId ∧ noticeText server what = (n.text, n.bad)) ∧
      n.seq = s.app.notices.last + 1 := by
  cases Proxy.turn hstep with
  | @call i w t e task app running made =>
    obtain ⟨-, -, happ⟩ := App.served made
    rw [happ] at hn
    rcases mem_notices_answer hn with hn | ⟨hcall, hseq⟩
    · exact .inl hn
    · obtain ⟨c, answer⟩ := e
      obtain rfl : c = _ := hcall
      refine .inr ⟨t, List.mem_of_getElem? running, by simp [taskCall, running, made], fun htells => ?_, hseq⟩
      exact (Task.step_makes htells made).1 _ _ _ _ rfl
  | @admission id w x t t' e app session phase made =>
    obtain ⟨hallows, -, -⟩ := (hsound.admits id x t session phase).step made
    obtain ⟨-, -, happ⟩ := App.served made
    rw [← Standing.allows.notices hallows, ← happ]
    exact .inl hn
  | _ => exact .inl hn

theorem Reported.step {K : Ground → Prop} (h : Reported tr s) (hsound : Sound K s)
    (htells : ∀ t ∈ s.tasks, t.task.prog.Makes t.request.Tells) (hstep : s.step a = some s') :
    Reported (tr ++ [⟨s, a, s'⟩]) s' := by
  have hold : ∀ {user database}, s.Connected user database → s'.Connected user database := fun h => h.step hstep
  refine ⟨?_, fun userId n hn => ?_⟩
  · refine Proxy.tasks_of_step (Q := fun t => ∀ user database, t.Reports user database → s'.Connected user database)
      hstep (fun t ht user database hr => hold (h.reports t ht user database hr))
      (fun r seen hstarts user database ⟨server, what, hr⟩ => ?_) fun _ _ _ _ _ _ _ _ ht => ht
    obtain rfl : r = _ := hr
    cases hstarts with
    | outside label external => cases external
    | report session => exact hold ⟨_, List.mem_of_getElem? session, rfl, rfl⟩
  · rcases notices_of_step hsound hstep hn with hn | ⟨t, ht, hcall, hreport, hseq⟩
    · obtain ⟨e, he, user, hid, hpushes, hconnected⟩ := h.notices userId n hn
      exact ⟨e, List.mem_append_left _ he, user, hid, hpushes, hold hconnected⟩
    · obtain ⟨user, server, what, hr, rfl, htext⟩ := hreport (htells t ht)
      refine ⟨_, List.mem_concat_self, user, rfl,
        ⟨⟨t, server, what, hcall, hr, htext⟩, hseq⟩, ?_⟩
      exact hold (h.reports t ht user n.database ⟨server, what, hr⟩)

theorem reported_of_run (run : ProxyRun b trace s) : Reported trace s := by
  refine run.history ?_ fun tr s a s' hrun ih hstep => ?_
  · obtain ⟨store, vault, happ⟩ := b.app_eq
    refine ⟨by simp [Boot.start], ?_⟩
    rw [Boot.start, happ]
    rintro _ _ ⟨⟩
  · exact ih.step (gated_of_run hrun).2 (makes_of_run hrun tells_program) hstep

end Reports

/-! ## With the user it is about -/

/-- A poll under a sign-in, and the notices it was answered with. -/
def PolledAs (e : Entry Proxy Act) (i : Nat) (tokenHash : Bytes) (userId : Int) (notices : List Notice) : Prop :=
  ∃ w t after sent last, e.label = .call i w ∧ t.request = .http (.myNotices tokenHash after) sent ∧
    taskCall e = some (t, ⟨.noticesSince userId after, (notices, last)⟩)

/-- A notice was pushed by a report of the user the poll has been authenticated as, a row of the same database: the
report of a connection of that user, registered in the database in place. -/
structure OwnNotice (before : ProxyTrace) (e : Entry Proxy Act) (i : Nat) (tokenHash : Bytes) (userId : Int)
    (n : Notice) : Prop where
  row : ∃ asked ∈ before, ∃ w t, ∃ user ∈ asked.pre.app.store.users.rows, asked.label = .call i w ∧
    taskCall asked = some (t, ⟨.sessionUser tokenHash, some user⟩) ∧ user.id = userId ∧
    asked.pre.app.imports = e.pre.app.imports
  pushed : ∃ e₀ ∈ before, ∃ user, user.id = userId ∧ Pushes e₀ user n ∧ e.pre.Connected user n.database
  database : n.database = e.pre.app.imports

/-- What the scan tells stays with the user it is about: a notice is returned to polls of the row whose connection it
is of, and a line is written to the database the connection was registered in and admitted from. -/
structure StaysWithUser (trace : ProxyTrace) : Prop where
  polls : ∀ before e after, trace = before ++ e :: after → ∀ i tokenHash userId notices,
    PolledAs e i tokenHash userId notices → ∀ n ∈ notices, OwnNotice before e i tokenHash userId n
  lines : ∀ e ∈ trace, ∀ t line user server database what, taskCall e = some (t, ⟨.audit line, ()⟩) →
    t.request = .report user server database what →
    database = e.pre.app.imports ∧ ∀ n ∈ t.seen, n = e.pre.app.imports

variable {tokenHash : Bytes} {t : Running}

theorem Store.mem_of_sessionUser {store : Store} {now : Int} {user : User}
    (h : store.sessionUser tokenHash now = some user) : user ∈ store.users.rows := by
  obtain ⟨r, -, hr⟩ := Option.bind_eq_some_iff.1 h
  exact (Table.byId_eq_some hr).1

variable {e : Entry Proxy Act}

theorem answer_of_taskCall {ev : Event Api} (h : taskCall e = some (t, ev)) :
    ∃ m, ev.answer = (App.answer m e.label.world ev.call e.pre.app).1 := by
  obtain ⟨i, w, task, app, hlabel, -, hmade⟩ := taskCall_eq_some h
  rw [hlabel]
  exact ⟨_, (App.served hmade).2.1⟩

theorem row_of_poll (run : ProxyRun b trace s) {i : Nat} {w : World} {after : Nat} {sent : Option Text} {userId : Int}
    {answer : List Notice × Nat} {task : Task Api (ApiResult Reply)} {app : App} (ht : s.tasks[i]? = some t)
    (hrequest : t.request = .http (.myNotices tokenHash after) sent)
    (hmade : t.task.step (App.serve (.task i) w) s.app = some (⟨.noticesSince userId after, answer⟩, task, app)) :
    ∃ asked ∈ trace, ∃ w t, ∃ user ∈ asked.pre.app.store.users.rows, asked.label = .call i w ∧
      taskCall asked = some (t, ⟨.sessionUser tokenHash, some user⟩) ∧ user.id = userId ∧
      asked.pre.app.imports = s.app.imports := by
  have hmem := List.mem_of_getElem? ht
  have hobeys := obeys_of_run (P := Polling) (q := fun _ => []) run polling_program t hmem
  obtain ⟨user, hid, hlog⟩ := (hobeys.step hmade).1 tokenHash after sent userId after hrequest rfl
  have hlog : t.task.made = _ := (Protocol.after_logging _ _).symm.trans hlog
  -- it has read in its hold only
  have hlinks := (fenced_of_run run).tasks t hmem
  rw [Running.grip, hrequest, hlog] at hlinks
  have hseen : ∀ n ∈ t.seen, n = s.app.imports := hlinks.1
  obtain ⟨asked, hasked, ⟨t₀, hcall, -⟩, ⟨w₀, hlabel⟩, hread⟩ :=
    calls_of_run run i t ht ⟨.sessionUser tokenHash, some user⟩ (by rw [hlog]; simp)
  obtain ⟨m, hanswer⟩ := answer_of_taskCall hcall
  exact ⟨asked, hasked, w₀, t₀, user, Store.mem_of_sessionUser hanswer.symm, hlabel, hcall, hid, hseen _ (hread rfl)⟩

/-- What the file scan tells stays with the user it is about in every run in which no database is replaced while a
notice is held, a report is under way, or a connection is being recorded or is established. -/
theorem scan_tells_own (run : ProxyRun b trace s) (quiet : ∀ e ∈ trace, ReplacesQuietly e) : StaysWithUser trace where
  polls := by
    rintro before e after rfl i tokenHash userId notices hpoll n hn
    have hbefore := run.before.1
    have htold := told_of_run hbefore fun e he => quiet e (List.mem_append_left _ he)
    obtain ⟨w, t, after, sent, last, hlabel, hrequest, hcall⟩ := hpoll
    obtain ⟨task, app, ht, hmade⟩ := taskCall_of_label hcall hlabel
    obtain ⟨-, hanswer, -⟩ := App.served hmade
    have hheld : n ∈ e.pre.app.notices.of userId := by
      have hsince : notices = _ := congrArg Prod.fst hanswer
      rw [hsince] at hn
      exact List.mem_of_mem_filter hn
    exact ⟨row_of_poll hbefore ht hrequest hmade, (reported_of_run hbefore).notices userId n hheld,
      htold.notices userId n hheld⟩
  lines e he t line user server database what hcall hrequest := by
    obtain ⟨tr₁, tr₂, rfl, hbefore⟩ := run.exists_before he
    have htold := told_of_run hbefore fun e he => quiet e (List.mem_append_left _ he)
    obtain ⟨i, w, task, app, -, ht, hmade⟩ := taskCall_eq_some hcall
    exact htold.reports t (List.mem_of_getElem? ht) user database ⟨server, what, hrequest⟩ (Task.result_of_step hmade)

/-! ### A session that is scanned -/

/-- The user's connection is admitted, recorded and established, and a file has passed; the report is the task
`i + 3`. -/
def scannedSession (i : Nat) : List Act :=
  admitOne i ++ .opens 0 ['x'] :: calls (i + 2) 5 ++ [.establish 0, .report 0 (.passed .upload [(['f'], 3)])]

/-- The administrator imports a database. -/
def importOf (store : Store) : Act :=
  .request (.http (.confirmImport [2] ['u'] true (some ⟨['p'], aadExport, store⟩) ['p'] (some []) (.ok ())) none)

/-- A database is imported that has the same users; then the report is made, and the user's page asks for notices. -/
def polledSession : List Act :=
  importOf { oneServer with masterRecovery := some (Vault.wrapRecovery 7 ['p']) } :: calls 0 17 { token := ['i'] } ++
  scannedSession 1 ++ calls 4 2 ++ .request (.http (.myNotices [1] 0) none) :: calls 5 5

/-- The notices a poll is answered with that satisfy `p`. -/
def polledWith (p : Entry Proxy Act → Notice → Bool) (e : Entry Proxy Act) : Bool :=
  match e.label, taskCall e with
  | .call _ _, some (t, ⟨.noticesSince _ after, answer⟩) =>
    match t.request with
    | .http (.myNotices _ asked) _ => asked == after && answer.1.any (p e)
    | _ => false
  | _, _ => false

theorem polledAs_of_polledWith {p : Entry Proxy Act → Notice → Bool} (h : polledWith p e = true) :
    ∃ i tokenHash userId notices, PolledAs e i tokenHash userId notices ∧ ∃ n ∈ notices, p e n = true := by
  unfold polledWith at h
  split at h
  · rename_i i w t userId after answer hlabel hcall
    split at h
    · rename_i tokenHash asked sent hrequest
      rw [Bool.and_eq_true, beq_iff_eq] at h
      obtain ⟨rfl, hany⟩ := h
      refine ⟨i, tokenHash, userId, answer.1, ⟨w, t, asked, sent, answer.2, hlabel, hrequest, hcall⟩, ?_⟩
      exact List.any_eq_true.1 hany
    · cases h
  · cases h

theorem quiet_of_no_sessions (run : ProxyRun b trace s) (h : s.sessions = []) : Quiet s := by
  have hnone : ∀ {user database}, ¬ s.Connected user database := by
    rintro user database ⟨x, hx, -⟩
    rw [h] at hx
    cases hx
  obtain ⟨hreports, hnotices⟩ := reported_of_run run
  refine ⟨fun userId => List.eq_nil_iff_forall_not_mem.2 fun n hn => ?_,
    fun t ht user database hr => ?_, ?_, ?_⟩
  · obtain ⟨-, -, user, -, -, hconnected⟩ := hnotices userId n hn
    exact hnone hconnected
  · exact absurd (hreports t ht user database hr) hnone
  all_goals simp [h]

theorem replacesQuietly_of_all (run : ProxyRun b trace s)
    (h : trace.all (fun e => e.post.app.imports == e.pre.app.imports || e.pre.sessions.isEmpty) = true) :
    ∀ e ∈ trace, ReplacesQuietly e := by
  intro e he hne
  obtain ⟨tr₁, tr₂, rfl, hbefore⟩ := run.exists_before he
  refine quiet_of_no_sessions hbefore ?_
  simpa [hne] using List.all_eq_true.1 h e he

def beforeImport : Boot := { store := { oneServer with instanceId := some ['j'] } }

/-- The user's own page is told of the file, in a database that was imported. -/
theorem scan_tells_own_polled : ∃ s trace, ProxyRun beforeImport trace s ∧
    (∃ e ∈ trace, e.post.app.imports ≠ e.pre.app.imports) ∧
    ∃ before e after, trace = before ++ e :: after ∧ ∃ i tokenHash userId notices,
      PolledAs e i tokenHash userId notices ∧ ∃ n ∈ notices, OwnNotice before e i tokenHash userId n := by
  obtain ⟨s, run, -⟩ := scriptedProxy_run beforeImport polledSession (fun _ => true) (by decide +kernel)
  have himport : (scriptedProxy beforeImport polledSession).any
      (fun e => e.post.app.imports != e.pre.app.imports) = true := by decide +kernel
  have hpolled : (scriptedProxy beforeImport polledSession).any (polledWith fun _ _ => true) = true := by
    decide +kernel
  have hquiet := replacesQuietly_of_all run (by decide +kernel)
  obtain ⟨e', he', hne⟩ := List.any_eq_true.1 himport
  obtain ⟨e, he, h⟩ := List.any_eq_true.1 hpolled
  obtain ⟨i, tokenHash, userId, notices, hpoll, n, hn, -⟩ := polledAs_of_polledWith h
  obtain ⟨before, after, htrace⟩ := List.append_of_mem he
  exact ⟨s, _, run, ⟨e', he', bne_iff_ne.1 hne⟩, before, e, after, htrace, i, tokenHash, userId, notices, hpoll, n, hn,
    (scan_tells_own run hquiet).polls before e after htrace i tokenHash userId notices hpoll n hn⟩

/-- The database that is imported: another user has the number of the one who is connected. -/
def importedStore : Store where
  users := Table.empty.insert (fun id => ({ id, username := ['c'], incarnation := 4 } : User)) fun _ => rfl
  sessions := [⟨[3], 1, 0, 100⟩]
  masterRecovery := some (Vault.wrapRecovery 7 ['p'])
  instanceId := some ['j']

def importOther : Act := importOf importedStore

/-- The database is replaced while a report is under way: its notice has been pushed, its line has not been written.
Then the user of the imported database asks for notices. -/
def replacedMidReport : List Act :=
  scannedSession 0 ++ calls 3 1 ++ importOther :: calls 4 10 ++ calls 3 1 ++ calls 4 7 ++
  .request (.http (.myNotices [3] 0) none) :: calls 5 5

/-- A line of a report is written to another database than its connection's. -/
def linesElsewhere (e : Entry Proxy Act) : Bool :=
  match taskCall e with
  | some (t, ⟨.audit _, ()⟩) => match t.request with
    | .report _ _ database _ => database != e.pre.app.imports
    | _ => false
  | _ => false

theorem line_of_linesElsewhere (h : linesElsewhere e = true) :
    ∃ t line user server database what, taskCall e = some (t, ⟨.audit line, ()⟩) ∧
      t.request = .report user server database what ∧ database ≠ e.pre.app.imports := by
  unfold linesElsewhere at h
  split at h
  · rename_i t line hcall
    split at h
    · rename_i user server database what hrequest
      exact ⟨t, line, user, server, database, what, hcall, hrequest, bne_iff_ne.1 h⟩
    · cases h
  · cases h

/-- A notice of a connection of the replaced database is returned to the user of the imported one who has the same
number, and the line is written to the imported database. -/
theorem scan_tells_other : ∃ s trace, ProxyRun { store := oneServer } trace s ∧
    (∃ e ∈ trace, ∃ i tokenHash userId notices, PolledAs e i tokenHash userId notices ∧
      ∃ n ∈ notices, n.database ≠ e.pre.app.imports) ∧
    ∃ e ∈ trace, ∃ t line user server database what, taskCall e = some (t, ⟨.audit line, ()⟩) ∧
      t.request = .report user server database what ∧ database ≠ e.pre.app.imports := by
  obtain ⟨s, run, -⟩ := scriptedProxy_run { store := oneServer } replacedMidReport (fun _ => true) (by decide +kernel)
  have hpolled : (scriptedProxy { store := oneServer } replacedMidReport).any
      (polledWith fun e n => n.database != e.pre.app.imports) = true := by decide +kernel
  have hline : (scriptedProxy { store := oneServer } replacedMidReport).any linesElsewhere = true := by decide +kernel
  obtain ⟨e, he, h⟩ := List.any_eq_true.1 hpolled
  obtain ⟨i, tokenHash, userId, notices, hpoll, n, hn, hne⟩ := polledAs_of_polledWith h
  obtain ⟨e', he', h'⟩ := List.any_eq_true.1 hline
  exact ⟨s, _, run, ⟨e, he, i, tokenHash, userId, notices, hpoll, n, hn, bne_iff_ne.1 hne⟩, e', he',
    line_of_linesElsewhere h'⟩

end WebAccess
