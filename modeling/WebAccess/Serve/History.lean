/-
Where the calls of a task were made. A task keeps the calls it has made, and so does an admission;
each of them was a step of the run, of the same request or connection, and the database a read was
answered from is among those it has seen.
-/
import WebAccess.Serve.Proxy

namespace WebAccess

open Codec Wire Process Transition

def Act.world : Act → World
  | call _ w | admission _ w => w
  | _ => {}

/-! ## What a step leaves at a place -/

section Places

variable {s s' : Proxy} {a : Act}

variable {c : Call} {database id : Nat} {seen : List Nat}

theorem Call.mem_sees {n : Nat} (h : n ∈ seen) : n ∈ c.sees database seen := by
  unfold sees
  split
  · exact List.mem_append_left _ h
  · exact h

theorem Call.mem_sees_self (h : c.reads = true) : database ∈ c.sees database seen := by
  rw [sees, if_pos h]
  exact List.mem_concat_self

variable {i : Nat} {t : Running}

theorem Proxy.task_of_step {t' : Running} (hstep : s.step a = some s') (ht' : s'.tasks[i]? = some t') :
    s.tasks[i]? = some t' ∨ (∃ r seen, t' = Request.start r seen) ∨
      ∃ w t e task app, a = .call i w ∧ s.tasks[i]? = some t ∧
        t.task.step (App.serve (.task i) w) s.app = some (e, task, app) ∧ t' = t.went s.app.imports e task := by
  rcases Proxy.tasks_step hstep with ⟨more, htasks, hmore⟩ | ⟨j, w, t, e, task, app, rfl, ht, hmade, htasks⟩ <;>
    rw [htasks] at ht'
  · rcases Nat.lt_or_ge i s.tasks.length with hi | hi
    · rw [List.getElem?_append_left hi] at ht'
      exact .inl ht'
    · rw [List.getElem?_append_right hi] at ht'
      obtain ⟨r, seen, -, ht⟩ := hmore t' (List.mem_of_getElem? ht')
      exact .inr (.inl ⟨r, seen, ht⟩)
  · by_cases hij : j = i
    · subst hij
      rw [List.getElem?_set_self (List.getElem?_eq_some_iff.1 ht).1] at ht'
      exact .inr (.inr ⟨w, t, e, task, app, rfl, ht, hmade, (Option.some_inj.1 ht').symm⟩)
    · rw [List.getElem?_set_ne hij] at ht'
      exact .inl ht'

theorem Proxy.task_goes (hstep : s.step a = some s') (ht : s.tasks[i]? = some t) :
    s'.tasks[i]? = some t ∨ ∃ w e task app, a = .call i w ∧
      t.task.step (App.serve (.task i) w) s.app = some (e, task, app) ∧
      s'.tasks[i]? = some (t.went s.app.imports e task) := by
  have hi := (List.getElem?_eq_some_iff.1 ht).1
  rcases Proxy.tasks_step hstep with ⟨more, htasks, -⟩ | ⟨j, w, u, e, task, app, rfl, hu, hmade, htasks⟩ <;> rw [htasks]
  · exact .inl ((List.getElem?_append_left hi).trans ht)
  · by_cases hij : j = i
    · subst hij
      obtain rfl := Option.some_inj.1 (ht.symm.trans hu)
      exact .inr ⟨w, e, task, app, rfl, hmade, List.getElem?_set_self hi⟩
    · exact .inl ((List.getElem?_set_ne hij).trans ht)

theorem Proxy.task_of_call {w : World} {e : Event Api} {task : Task Api (ApiResult Reply)} {app : App}
    (hstep : s.step (.call i w) = some s') (ht : s.tasks[i]? = some t)
    (hmade : t.task.step (App.serve (.task i) w) s.app = some (e, task, app)) :
    s'.tasks[i]? = some (t.went s.app.imports e task) := by
  have hi := (List.getElem?_eq_some_iff.1 ht).1
  simp only [Proxy.step, ht, hmade, Option.bind_eq_bind, Option.bind_some, Option.some_inj] at hstep
  subst hstep
  simp [hi]

theorem app_of_taskCall {e : Entry Proxy Act} {ev : Event Api} (hstep : e.pre.step e.label = some e.post)
    (h : taskCall e = some (t, ev)) : ∃ m w, ev.answer = (App.answer m w ev.call e.pre.app).1 ∧
      e.post.app = (App.answer m w ev.call e.pre.app).2 := by
  obtain ⟨i, w, task, app, hlabel, ht, hmade⟩ := taskCall_eq_some h
  rw [hlabel] at hstep
  simp only [Proxy.step, ht, hmade, Option.bind_eq_bind, Option.bind_some, Option.some_inj] at hstep
  obtain ⟨-, hanswer, happ⟩ := App.served hmade
  exact ⟨.task i, w, hanswer, by rw [← hstep, happ]⟩

/-- A connection that is being admitted after a step: it was so before, it has just asked, or its
admission has made a call. -/
theorem Proxy.admitting_of_step {x' : Session} {t' : Task Api (Except Refusal Server)} (hstep : s.step a = some s')
    (hx' : s'.sessions[id]? = some x') (hphase' : x'.phase = .admitting t') :
    s.sessions[id]? = some x' ∨
      (∃ x targetId proxyAuth, a = .ask id targetId proxyAuth ∧ s.sessions[id]? = some x ∧
        x' = { x with phase := .admitting { prog := admitSession id x.user x.tokenHash targetId proxyAuth } }) ∨
      ∃ w x t e app, a = .admission id w ∧ s.sessions[id]? = some x ∧ x.phase = .admitting t ∧
        t.step (App.serve (.session id) w) s.app = some (e, t', app) ∧
        x' = { x with seen := e.call.sees s.app.imports x.seen, phase := .admitting t' } := by
  cases Proxy.turn hstep with
  | request r => exact .inl hx'
  | @call j w t e task app running made =>
    rcases Nat.lt_or_ge id s.sessions.length with hid | hid
    · rw [List.getElem?_append_left hid] at hx'
      exact .inl hx'
    · rw [List.getElem?_append_right hid] at hx'
      have hmem := List.mem_of_getElem? hx'
      unfold spawned at hmem
      split at hmem
      · rw [List.mem_singleton.1 hmem] at hphase'
        cases hphase'
      · cases hmem
  | @ask id' x targetId proxyAuth session phase =>
    rcases Proxy.sessions_setPhase hx' with ⟨rfl, rfl⟩ | ⟨-, hx'⟩
    · exact .inr (.inl ⟨x, targetId, proxyAuth, rfl, session, rfl⟩)
    · exact .inl hx'
  | @admission id' w x t u e app session phase made =>
    rcases Proxy.sessions_setPhase hx' with ⟨rfl, rfl⟩ | ⟨-, hx'⟩
    · have hu : Phase.ofTask u = .admitting t' := hphase'
      unfold Phase.ofTask at hu
      split at hu <;> cases hu
      refine .inr (.inr ⟨w, x, t, e, app, rfl, session, phase, made, ?_⟩)
      simpa using hphase'
    · exact .inl hx'
  | report => exact .inl hx'
  | _ =>
    rcases Proxy.sessions_setPhase hx' with ⟨rfl, rfl⟩ | ⟨-, hx'⟩
    · cases hphase'
    · exact .inl hx'

/-- A connection whose client's request has been decided on. -/
def Phase.past : Phase → Bool
  | .upgraded | .admitting _ => false
  | _ => true

/-- A connection stays at its place, of the same user and database, and stays decided on. -/
theorem Proxy.session_stays {x : Session} (hstep : s.step a = some s') (hx : s.sessions[id]? = some x) :
    ∃ x', s'.sessions[id]? = some x' ∧ x'.user = x.user ∧ x'.database = x.database ∧
      (x.phase.past = true → x'.phase.past = true) := by
  have hset : ∀ {id' : Nat} {y y' : Session} {sessions : List Session}, s.sessions[id']? = some y →
      sessions = s.sessions.set id' y' → y'.user = y.user → y'.database = y.database →
      (y.phase.past = true → y'.phase.past = true) →
      ∃ x', sessions[id]? = some x' ∧ x'.user = x.user ∧ x'.database = x.database ∧
        (x.phase.past = true → x'.phase.past = true) := by
    rintro id' y y' _ hy rfl huser hdatabase hphase
    by_cases hid : id' = id
    · subst hid
      obtain rfl := Option.some_inj.1 (hx.symm.trans hy)
      exact ⟨_, List.getElem?_set_self (List.getElem?_eq_some_iff.1 hx).1, huser, hdatabase, hphase⟩
    · exact ⟨x, (List.getElem?_set_ne hid).trans hx, rfl, rfl, fun h => h⟩
  cases Proxy.turn hstep with
  | call =>
    exact ⟨x, (List.getElem?_append_left (List.getElem?_eq_some_iff.1 hx).1).trans hx, rfl, rfl, fun h => h⟩
  | ask session phase | admission session phase => exact hset session rfl rfl rfl (by rw [phase]; exact nofun)
  | opens session | established session | superseded session | close session =>
    exact hset session rfl rfl rfl fun _ => rfl
  | _ => exact ⟨x, hx, rfl, rfl, fun h => h⟩

end Places

/-! ## Calls and the steps they were -/

/-- A step was a call of the task at a place. -/
structure CallOf (i : Nat) (t : Running) (ev : Event Api) (e : Entry Proxy Act) : Prop where
  task : ∃ t₀, taskCall e = some (t₀, ev) ∧ t₀.request = t.request
  label : ∃ w, e.label = .call i w
  seen : ev.call.reads = true → e.pre.app.imports ∈ t.seen

structure AdmissionOf (id : Nat) (x : Session) (ev : Event Api) (e : Entry Proxy Act) : Prop where
  session : ∃ x₀, sessionCall e = some (id, x₀, ev) ∧ x₀.user = x.user ∧ x₀.database = x.database
  seen : ev.call.reads = true → e.pre.app.imports ∈ x.seen

variable {b : Boot} {trace : ProxyTrace} {s : Proxy}

theorem calls_of_run (run : ProxyRun b trace s) :
    ∀ (i : Nat) t, s.tasks[i]? = some t → ∀ ev ∈ t.task.made, ∃ e ∈ trace, CallOf i t ev e := by
  refine run.history (by simp [Boot.start]) fun tr s a s' _ ih hstep i t' ht' ev hev => ?_
  rcases Proxy.task_of_step hstep ht' with ht | ⟨r, seen, rfl⟩ | ⟨w, t, e, task, app, rfl, ht, hmade, rfl⟩
  · obtain ⟨e, he, hcall⟩ := ih i t' ht ev hev
    exact ⟨e, List.mem_append_left _ he, hcall⟩
  · cases hev
  · obtain ⟨-, hmade'⟩ := Task.step_eq_some hmade
    have hev : ev ∈ task.made := hev
    rw [hmade'] at hev
    rcases mem_snoc.1 hev with hev | rfl
    · obtain ⟨e₀, he₀, hcall⟩ := ih i t ht ev hev
      exact ⟨e₀, List.mem_append_left _ he₀, hcall.task, hcall.label, fun h => Call.mem_sees (hcall.seen h)⟩
    · refine ⟨⟨s, .call i w, s'⟩, by simp, ⟨t, ?_, rfl⟩, ⟨w, rfl⟩, Call.mem_sees_self⟩
      simp [taskCall, ht, hmade]

theorem admissions_of_run (run : ProxyRun b trace s) :
    ∀ (id : Nat) x t, s.sessions[id]? = some x → x.phase = .admitting t → ∀ ev ∈ t.made,
      ∃ e ∈ trace, AdmissionOf id x ev e := by
  refine run.history (by simp [Boot.start])
    fun tr s a s' _ ih hstep id x' t' hx' hphase' ev hev => ?_
  rcases Proxy.admitting_of_step hstep hx' hphase' with
    hx | ⟨x, targetId, proxyAuth, rfl, hx, rfl⟩ | ⟨w, x, t, e, app, rfl, hx, hphase, hmade, rfl⟩
  · obtain ⟨e, he, hcall⟩ := ih id x' t' hx hphase' ev hev
    exact ⟨e, List.mem_append_left _ he, hcall⟩
  · obtain rfl := Phase.admitting.inj hphase'
    cases hev
  · obtain ⟨-, hmade'⟩ := Task.step_eq_some hmade
    rw [hmade'] at hev
    rcases mem_snoc.1 hev with hev | rfl
    · obtain ⟨e₀, he₀, hcall⟩ := ih id x t hx hphase ev hev
      exact ⟨e₀, List.mem_append_left _ he₀, hcall.session, fun h => Call.mem_sees (hcall.seen h)⟩
    · refine ⟨⟨s, .admission id w, s'⟩, by simp, ⟨x, ?_, rfl, rfl⟩, Call.mem_sees_self⟩
      simp [sessionCall, hx, hphase, hmade]

theorem task_of_run {s₀ : Proxy} {tr : ProxyTrace} {i : Nat} (hrun : ProxyPath s₀ tr s)
    {t₀ : Running}
    (ht₀ : s₀.tasks[i]? = some t₀) :
    ∃ t, s.tasks[i]? = some t ∧ t.request = t₀.request ∧ t₀.task.made <+: t.task.made := by
  refine hrun.invariant ⟨t₀, ht₀, rfl, List.prefix_refl _⟩ ?_
  rintro s a s' ⟨t, ht, hr, hmade⟩ hstep
  rcases Proxy.task_goes hstep ht with ht' | ⟨w, e, task, app, rfl, hcall, ht'⟩
  · exact ⟨t, ht', hr, hmade⟩
  · refine ⟨_, ht', hr, hmade.trans ?_⟩
    change t.task.made <+: task.made
    rw [(Task.step_eq_some hcall).2]
    exact List.prefix_append _ _

theorem requested_of_run (run : ProxyRun b trace s) :
    ∀ t ∈ s.tasks, t.request.external = true → ∃ e ∈ trace, e.label = .request t.request := by
  refine run.history (by simp [Boot.start]) fun tr s a s' _ ih hstep => ?_
  refine Proxy.tasks_of_step (Q := fun t => t.request.external = true →
      ∃ e ∈ tr ++ [(⟨s, a, s'⟩ : Entry Proxy Act)], e.label = .request t.request) hstep (fun t ht hexternal => ?_)
    (fun r seen hr hexternal => ?_) fun i w t e task app _ _ ht => ht
  · obtain ⟨e, he, hlabel⟩ := ih t ht hexternal
    exact ⟨e, List.mem_append_left _ he, hlabel⟩
  · cases hr with
    | outside label => exact ⟨_, List.mem_concat_self, label⟩
    | _ => cases hexternal

/-! ## Programs and the tasks that run them -/

theorem obeys_of_run (run : ProxyRun b trace s) {P : Request → Protocol Api} {q : (r : Request) → (P r).State}
    {post : (r : Request) → (P r).State → ApiResult Reply → Prop}
    (h : ∀ r : Request, r.program.Obeys (P r) (post r) (q r)) :
    ∀ t ∈ s.tasks, t.task.Obeys (P t.request) (q t.request) (post t.request) := by
  refine run.invariant (by simp [Boot.start]) fun s a s' ih hstep => ?_
  refine Proxy.tasks_of_step hstep ih (fun r _ _ => h r) fun i w t e task app _ hmade hobeys => ?_
  exact (hobeys.step hmade).2.2

theorem makes_of_run (run : ProxyRun b trace s) {kind : Request → Call → Prop}
    (h : ∀ r : Request, r.program.Makes (kind r)) : ∀ t ∈ s.tasks, t.task.prog.Makes (kind t.request) := by
  refine run.invariant (by simp [Boot.start]) fun s a s' ih hstep => ?_
  refine Proxy.tasks_of_step hstep ih (fun r _ _ => h r) fun i w t e task app _ hmade hmakes => ?_
  exact (Task.step_makes hmakes hmade).2

end WebAccess
