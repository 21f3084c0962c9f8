/-
Which database a response names. Every response is stamped with the instance of the database that is
in place once its handler has returned. A request that runs under the middleware's hold is stamped
under that hold, so the stamp is of the database its handler read and wrote, whatever imports there
are. A route that takes the gate itself is stamped after it has given it back: there the stamp is of
that database as long as none is put in place in between.
-/
import WebAccess.Serve.Rows
import WebAccess.Serve.Telling

namespace WebAccess

open Codec Wire Process Transition

/-! ## The database in place -/

/-- The calls that read or write the database. -/
def Call.touches : Call → Bool
  | .acquire _ | .release | .lockExport | .unlockExport | .now | .randomKey | .randomToken | .isAdmin _ | .hostName
  | .protector | .vaultKey | .install _ | .generation | .bumpGeneration | .register .. | .generationOf _ | .setServer ..
  | .setIncarnations .. | .sweep _ | .userIds | .issue _ | .redeem _ | .clearTickets | .pushNotice ..
  | .noticesSince .. => false
  | _ => true

/-- The database is the one it was, and so is its instance. -/
structure App.SameDatabase (a a' : App) : Prop where
  imports : a'.imports = a.imports
  instanceId : a'.store.instanceId = a.store.instanceId

namespace App.SameDatabase

variable {a a' a'' : App} {m : Holder} {w : World} {c : Call}

theorem refl (a : App) : a.SameDatabase a := ⟨rfl, rfl⟩

theorem trans (h : a.SameDatabase a') (h' : a'.SameDatabase a'') : a.SameDatabase a'' :=
  ⟨h'.imports.trans h.imports, h'.instanceId.trans h.instanceId⟩

theorem answer (hc : ∀ store, c ≠ .replaceWith store) : a.SameDatabase (App.answer m w c a).2 := by
  refine ⟨?_, (App.keeps_answer m w c a).instanceId ?_⟩ <;> cases c <;> first | rfl | exact absurd rfl (hc _)

end App.SameDatabase

theorem sameDatabase_of_step {s s' : Proxy} {a : Act} (hsound : Sound (fun _ => False) s) (hstep : s.step a = some s')
    (hreplaces : ¬ Replaces ⟨s, a, s'⟩) : s.app.SameDatabase s'.app := by
  cases Proxy.turn hstep with
  | @call i w t e task app running made =>
    obtain ⟨-, hanswer, rfl⟩ := App.served made
    refine .answer fun store hcall => hreplaces ⟨t, store, ?_⟩
    obtain ⟨c, a⟩ := e
    obtain rfl : c = .replaceWith store := hcall
    simp [taskCall, running, made]
  | @admission id w x t t' e app session phase made =>
    obtain ⟨hstanding, -, -⟩ := (hsound.admits id x t session phase).step made
    obtain ⟨-, -, rfl⟩ := App.served made
    refine .answer fun store hcall => ?_
    have htag := Standing.allows.tag_ne hstanding
    rw [hcall] at htag
    exact htag rfl
  | _ => exact ⟨rfl, rfl⟩

/-! ## Stamps -/

section Stamps

variable {α β : Type}

/-- Nothing is left to be done but giving the gate back. -/
def finishing : Prog Api α → Bool
  | .ret _ => true
  | .call .release next => finishing (next ())
  | .call _ _ => false

theorem finishing_bind {f : α → Prog Api β} (hf : ∀ a, finishing (f a) = true) {p : Prog Api α}
    (h : finishing p = true) : finishing (p >>= f) = true := by
  induction p with
  | ret a => exact hf a
  | call c next ih =>
    cases c with
    | release => exact ih () h
    | _ => cases h

/-- Whatever it is answered, the program comes to its stamp: it reads the instance, and nothing is left to be done but
giving the gate back. -/
def WillStamp : Prog Api α → Prop
  | .ret _ => False
  | .call c next => (c = .instanceId ∧ ∀ a, finishing (next a) = true) ∨ ∀ a, WillStamp (next a)

/-- The program can come to its stamp without reading or writing the database before. -/
def CanStamp : Prog Api α → Prop
  | .ret _ => False
  | .call c next => (c = .instanceId ∧ ∃ a, finishing (next a) = true) ∨ c.touches = false ∧ ∃ a, CanStamp (next a)

theorem willStamp_bind {f : α → Prog Api β} (hf : ∀ a, WillStamp (f a)) : ∀ p : Prog Api α, WillStamp (p >>= f)
  | .ret a => hf a
  | .call _ next => .inr fun a => willStamp_bind hf (next a)

theorem WillStamp.andThen {f : α → Prog Api β} (hf : ∀ a, finishing (f a) = true) :
    ∀ {p : Prog Api α}, WillStamp p → WillStamp (p >>= f)
  | .ret _, h => h.elim
  | .call _ _, .inl h => .inl ⟨h.1, fun a => finishing_bind hf (h.2 a)⟩
  | .call _ _, .inr h => .inr fun a => (h a).andThen hf

theorem willStamp_stamped (p : Prog Api α) : WillStamp (stamped p) :=
  willStamp_bind (f := fun r => ask .instanceId >>= fun _ => pure r) (fun _ => Or.inl ⟨rfl, fun _ => rfl⟩) p

theorem willStamp_program (r : Route) (sent : Option Text) : WillStamp (r.program sent) := by
  unfold Route.program gateRequests
  split
  · exact willStamp_stamped _
  · have hrelease : ∀ r : ApiResult Reply, finishing (ask .release >>= fun _ => (pure r : Prog Api _)) = true :=
      fun _ => rfl
    exact .inr fun _ => (willStamp_stamped _).andThen hrelease

end Stamps

/-- A step is the call of a request whose answer its response is stamped with. -/
structure Stamped (i : Nat) (v : Option Text) (e : Entry Proxy Act) : Prop where
  label : ∃ w, e.label = .call i w
  call : ∃ t r sent, taskCall e = some (t, ⟨.instanceId, v⟩) ∧ t.request = .http r sent
  last : ∃ t, e.post.tasks[i]? = some t ∧ finishing t.task.prog = true

/-- A step is a call of a request that reads or writes the database. -/
structure Touches (i : Nat) (e : Entry Proxy Act) : Prop where
  label : ∃ w, e.label = .call i w
  call : ∃ t ev, taskCall e = some (t, ev) ∧ ev.call.touches = true

/-- A request that has read or written the database. -/
def Running.Touched (t : Running) : Prop := ∃ ev ∈ t.task.made, ev.call.touches = true

namespace Request

/-- The routes that take the gate themselves. -/
def selfGated : Request → Bool
  | http r _ => r.selfGated
  | _ => false

/-- The routes that run under the hold of the middleware. -/
def enclosed : Request → Bool
  | http r _ => !r.selfGated
  | _ => false

end Request

/-! ## The hold of the middleware -/

/-- What a request under the hold of the middleware may call: it takes the gate first, and nothing comes after it has
given it back. -/
def encloses : Option (Option Hold) → Call → Prop
  | none, c => c = .acquire .shared
  | some none, _ => False
  | some (some _), c => ∀ h, c ≠ .acquire h

/-- One hold, from the first call to the last. -/
abbrev Enclosing (enclosed : Bool) : Protocol Api where
  State := Option (Option Hold)
  allows q c := enclosed = true → encloses q c
  next q e := some (Grip.nextHold (q.getD none) e.call)

theorem enclosing_program (r : Request) : r.program.Obeys (Enclosing r.enclosed) (fun _ _ => True) none := by
  have hopen : ∀ r : Request, r.enclosed = false → r.program.Obeys (Enclosing r.enclosed) (fun _ _ => True) none := by
    intro r hr
    refine obeys_of_allows (fun q c h => ?_) _ _
    rw [hr] at h
    cases h
  cases hr : r.enclosed with
  | false => exact hr ▸ hopen r hr
  | true =>
    cases r with
    | http r sent =>
      have hselfGated : r.selfGated = false := by simpa [Request.enclosed] using hr
      have hbody : Within r.footprint (stamped (checkInstance r.method r.path sent r.handler)) :=
        within_stamped (within_checkInstance r.within_handler)
      simp only [Request.program, Route.program, gateRequests, Route.routeIn_selfGatedRoutes, hselfGated,
        Bool.false_eq_true, if_false]
      refine obeys_call (P := Enclosing true) (fun _ => rfl) fun _ => obeys_bind.2 ?_
      refine Prog.Obeys.mono (fun q r hq => ?_) (obeys_of_makes (P := Enclosing true)
        (I := fun q => q = some (some .shared)) (fun q c hq hc => ?_) hbody rfl)
      · subst hq
        exact ⟨fun _ => nofun, fun _ => trivial⟩
      · subst hq
        have hinner := hc.inner (Route.footprint_inner hselfGated)
        refine ⟨fun _ h hacquire => hinner.1 (by rw [hacquire]; rfl), fun a => ?_⟩
        have hheld := Grip.next_held (q := ⟨some .shared, .idle, .blank⟩) (e := ⟨c, a⟩) hinner
        exact congrArg some hheld
    | _ => cases hr

theorem held_after {enclosed : Bool} {q : Grip} (hq : q.held = none) (made : List (Event Api)) :
    (Gripping.after q made).held = ((Enclosing enclosed).after none made).getD none := by
  induction made using List.reverseRecOn with
  | nil => exact hq
  | append_singleton made e ih =>
    rw [Protocol.after_snoc, Protocol.after_snoc]
    exact congrArg (Grip.nextHold · e.call) ih

theorem Running.held_of_step {t : Running} {m : Holder} {w : World} {a a' : App} {e : Event Api}
    {task : Task Api (ApiResult Reply)}
    (hobeys : t.task.Obeys (Enclosing t.request.enclosed) none (fun _ _ => True))
      (henclosed : t.request.enclosed = true)
    (hbegun : t.task.made ≠ []) (hmade : t.task.step (App.serve m w) a = some (e, task, a')) : t.grip.held ≠ none := by
  obtain ⟨hallows, -, -⟩ := hobeys.step hmade
  have hallows := hallows henclosed
  have hheld : t.grip.held = ((Enclosing t.request.enclosed).after none t.task.made).getD none := held_after rfl _
  rw [hheld]
  cases hq : (Enclosing t.request.enclosed).after none t.task.made with
  | none =>
    obtain ⟨made, e, hsnoc⟩ := (List.eq_nil_or_concat t.task.made).resolve_left hbegun
    rw [hsnoc, List.concat_eq_append, Protocol.after_snoc] at hq
    cases hq
  | some held =>
    rw [hq] at hallows
    cases held with
    | none => exact hallows.elim
    | some h => exact nofun

/-! ## Between the last read or write and the stamp -/

section Between

variable {s s' : Proxy} {a : Act} {i : Nat} {t : Running}

/-- What is so of a request between its last read or write and its stamp: it has the gate, or it can come to its stamp
without another. -/
structure Running.Bound (t : Running) : Prop where
  held : t.request.enclosed = true → t.grip.held ≠ none
  stamp : t.request.selfGated = true → CanStamp t.task.prog

theorem Running.Bound.before {m : Holder} {w : World} {app app' : App} {e : Event Api} {n : Nat}
    {task : Task Api (ApiResult Reply)}
    (hobeys : t.task.Obeys (Enclosing t.request.enclosed) none (fun _ _ => True)) (hbegun : t.task.made ≠ [])
    (hmade : t.task.step (App.serve m w) app = some (e, task, app')) (htouches : e.call.touches = false)
    (h : (t.went n e task).Bound) : t.Bound := by
  refine ⟨fun henclosed => t.held_of_step hobeys henclosed hbegun hmade, fun hselfGated => ?_⟩
  have hcan : CanStamp task.prog := h.stamp hselfGated
  obtain ⟨next, hprog, hnext⟩ := Task.prog_of_step hmade
  rw [hprog]
  rw [hnext] at hcan
  exact .inr ⟨htouches, e.answer, hcan⟩

theorem Running.Touched.begun (h : t.Touched) : t.task.made ≠ [] := by
  obtain ⟨ev, hev, -⟩ := h
  exact List.ne_nil_of_mem hev

theorem Running.Touched.mono {t' : Running} (h : t.Touched) (hmade : t.task.made <+: t'.task.made) : t'.Touched := by
  obtain ⟨ev, hev, htouches⟩ := h
  exact ⟨ev, hmade.subset hev, htouches⟩

/-- No database is put in place while the request, if it takes the gate itself, has read or written and can come to its
stamp without reading or writing again. -/
def Undisturbed (i : Nat) (e : Entry Proxy Act) : Prop :=
  Replaces e → ∀ t, e.pre.tasks[i]? = some t → t.request.selfGated = true → t.Touched → ¬ CanStamp t.task.prog

theorem Running.Bound.not_replaces {r : Route} {sent : Option Text} {e : Entry Proxy Act} (h : t.Bound)
    (hg : Gated e.pre) (ht : e.pre.tasks[i]? = some t) (hr : t.request = .http r sent) (htouched : t.Touched)
    (htouches : ¬ Touches i e) (hundisturbed : Undisturbed i e) : ¬ Replaces e := by
  rintro ⟨u, store, hcall⟩
  obtain ⟨j, w, task, app, hlabel, hu, hmade⟩ := taskCall_eq_some hcall
  by_cases hij : j = i
  · subst hij
    exact htouches ⟨⟨w, hlabel⟩, u, _, hcall, rfl⟩
  cases hselfGated : r.selfGated with
  | true =>
    have hself : t.request.selfGated = true := by rw [hr]; exact hselfGated
    exact hundisturbed ⟨u, store, hcall⟩ t ht hself htouched (h.stamp hself)
  | false =>
    have hheld : t.grip.held ≠ none := h.held (by rw [hr, Request.enclosed, hselfGated]; rfl)
    rw [← Proxy.grip_task ht] at hheld
    obtain ⟨hallows, -, -⟩ := (hg.tasks u (List.mem_of_getElem? hu)).step e.pre.app.imports hmade
    exact hij (Holder.task.inj (hg.alone hu hallows.hold.1 hheld)).symm

end Between

section Runs

variable {b : Boot} {trace tr : ProxyTrace} {s s₀ : Proxy} {i : Nat}

theorem encloses_of_run (run : ProxyRun b trace s) :
    ∀ t ∈ s.tasks, t.task.Obeys (Enclosing t.request.enclosed) none (fun _ _ => True) :=
  obeys_of_run run (P := fun r => Enclosing r.enclosed) enclosing_program

theorem sameDatabase_of_bound (run : ProxyRun b trace s₀) (hrun : ProxyPath s₀ tr s)
    {t₀ : Running} {r : Route} {sent : Option Text} (ht₀ : s₀.tasks[i]? = some t₀) (hr₀ : t₀.request = .http r sent)
    (htouched₀ : t₀.Touched) (hbetween : ∀ e ∈ tr, ¬ Touches i e) (hundisturbed : ∀ e ∈ tr, Undisturbed i e) :
    ∀ t, s.tasks[i]? = some t → t.Bound → s₀.app.SameDatabase s.app := by
  have hrun := hrun.restrict (C := fun e => ¬ Touches i e ∧ Undisturbed i e)
    fun e he => ⟨hbetween e he, hundisturbed e he⟩
  refine hrun.history (fun _ _ _ => .refl _) ?_
  rintro tr s a s' hrun hsame ⟨hstep, htouches, hundisturbed⟩
  have hrun := hrun.mono fun _ _ _ h => h.1
  obtain ⟨t, ht, hr, hmade⟩ := task_of_run hrun ht₀
  have htouched := htouched₀.mono hmade
  obtain ⟨hg, hsound⟩ := gated_of_run (run.append hrun)
  have hkeep : t.Bound → s₀.app.SameDatabase s'.app := fun hbound =>
    (hsame t ht hbound).trans (sameDatabase_of_step hsound hstep
      (hbound.not_replaces (e := ⟨s, a, s'⟩) hg ht (hr.trans hr₀) htouched htouches hundisturbed))
  -- it was bound before the step, if it is so after it
  rcases Proxy.task_goes hstep ht with ht' | ⟨w, e, task, app, rfl, hcall, ht'⟩
  · intro u hu hbound
    rw [← Option.some_inj.1 (ht'.symm.trans hu)] at hbound
    exact hkeep hbound
  · intro u hu hbound
    rw [← Option.some_inj.1 (ht'.symm.trans hu)] at hbound
    refine hkeep (hbound.before (encloses_of_run (run.append hrun) t (List.mem_of_getElem? ht)) htouched.begun hcall ?_)
    rw [← Bool.not_eq_true]
    exact fun h => htouches ⟨⟨w, rfl⟩, t, e, by simp [taskCall, ht, hcall], h⟩

theorem Stamped.bound {v : Option Text} {e : Entry Proxy Act} {t : Running} (h : Stamped i v e)
    (run : ProxyRun b trace e.pre) (hstep : e.pre.step e.label = some e.post) (ht : e.pre.tasks[i]? = some t)
    (hbegun : t.task.made ≠ []) : t.Bound ∧ v = e.pre.app.store.instanceId := by
  obtain ⟨w, hlabel⟩ := h.label
  obtain ⟨u, r, sent, hcall, -⟩ := h.call
  obtain ⟨task, app, hu, hmade⟩ := taskCall_of_label hcall hlabel
  obtain rfl := Option.some_inj.1 (ht.symm.trans hu)
  refine ⟨⟨fun henclosed => t.held_of_step (encloses_of_run run t (List.mem_of_getElem? ht)) henclosed hbegun hmade,
    fun _ => ?_⟩, (App.served hmade).2.1⟩
  obtain ⟨next, hprog, hnext⟩ := Task.prog_of_step hmade
  obtain ⟨t', ht', hfinishing⟩ := h.last
  rw [hlabel] at hstep
  obtain rfl := Option.some_inj.1 ((Proxy.task_of_call hstep ht hmade).symm.trans ht')
  rw [hprog]
  exact .inl ⟨rfl, v, by rw [← hnext]; exact hfinishing⟩

theorem stamped_of_run (run : ProxyRun b trace s) :
    ∀ (i : Nat) t r sent, s.tasks[i]? = some t → t.request = .http r sent →
      WillStamp t.task.prog ∨ ∃ e ∈ trace, ∃ v, Stamped i v e := by
  refine run.history (by simp [Boot.start])
    fun tr s a s' _ ih hstep i t' r sent ht' hr => ?_
  rcases Proxy.task_of_step hstep ht' with ht | ⟨r', seen, rfl⟩ | ⟨w, t, e, task, app, rfl, ht, hmade, rfl⟩
  · refine (ih i t' r sent ht hr).imp_right ?_
    rintro ⟨e, he, hstamped⟩
    exact ⟨e, List.mem_append_left _ he, hstamped⟩
  · obtain rfl : r' = .http r sent := hr
    exact .inl (willStamp_program r sent)
  · rcases ih i t r sent ht hr with hwill | ⟨e₀, he₀, hstamped⟩
    · obtain ⟨next, hprog, hnext⟩ := Task.prog_of_step hmade
      rw [hprog] at hwill
      change WillStamp task.prog ∨ _
      rcases hwill with ⟨hcall, hfinishing⟩ | hwill
      · refine .inr ⟨⟨s, .call i w, s'⟩, by simp, ?_⟩
        obtain ⟨c, v⟩ := e
        obtain rfl : c = .instanceId := hcall
        refine ⟨v, ⟨w, rfl⟩, ⟨t, r, sent, by simp [taskCall, ht, hmade], hr⟩, _, ht', ?_⟩
        exact (congrArg finishing hnext).trans (hfinishing v)
      · exact .inl (by rw [hnext]; exact hwill _)
    · exact .inr ⟨e₀, List.mem_append_left _ he₀, hstamped⟩

end Runs

/-! ## Responses name the database they came from -/

/-- The last read or write of a request before a step. -/
structure LastTouch (trace : ProxyTrace) (i : Nat) (e₁ e₂ : Entry Proxy Act) : Prop where
  touches : Touches i e₁
  last : ∃ tr₁ tr₂ tr₃, trace = tr₁ ++ e₁ :: (tr₂ ++ e₂ :: tr₃) ∧ ∀ e ∈ tr₂, ¬ Touches i e

/-- The response of a request names the database its handler last read or wrote, and it is stamped if it is given. -/
structure NamesDatabase (trace : ProxyTrace) (s : Proxy) (i : Nat) : Prop where
  stamp : ∀ e₁ e₂ v, LastTouch trace i e₁ e₂ → Stamped i v e₂ →
    v = e₁.post.app.store.instanceId ∧ e₂.pre.app.imports = e₁.post.app.imports
  stamped : ∀ t r sent, s.tasks[i]? = some t → t.request = .http r sent → t.task.prog.result? ≠ none →
    ∃ e ∈ trace, ∃ v, Stamped i v e

/-! ### What a script shows -/

/-- A call of a request that reads or writes the database. -/
def touchesAt (i : Nat) (e : Entry Proxy Act) : Bool :=
  match e.label with
  | .call j _ => j == i && (taskCall e).any (·.2.call.touches)
  | _ => false

variable {e : Entry Proxy Act} {i : Nat}

theorem touchesAt_iff : touchesAt i e = true ↔ Touches i e := by
  unfold touchesAt
  constructor
  · intro h
    split at h
    · rename_i j w hlabel
      simp only [Bool.and_eq_true, beq_iff_eq, Option.any_eq_true] at h
      obtain ⟨rfl, ⟨t, ev⟩, hcall, htouches⟩ := h
      exact ⟨⟨w, hlabel⟩, t, ev, hcall, htouches⟩
    · cases h
  · rintro ⟨⟨w, hlabel⟩, t, ev, hcall, htouches⟩
    simp [hlabel, hcall, htouches]

def Request.isHttp : Request → Bool
  | http .. => true
  | _ => false

/-- The value a response is stamped with, if it is stamped there. -/
def stampedAt (i : Nat) (e : Entry Proxy Act) : Option (Option Text) :=
  match e.label, taskCall e with
  | .call j _, some (t, ⟨.instanceId, v⟩) =>
    if j == i && t.request.isHttp && (e.post.tasks[i]?.any fun t => finishing t.task.prog) then some v
    else none
  | _, _ => none

theorem stamped_of_stampedAt {v : Option Text} (h : stampedAt i e = some v) : Stamped i v e := by
  unfold stampedAt at h
  split at h
  · rename_i j w t v' hlabel hcall
    split at h
    · rename_i hif
      cases h
      simp only [Bool.and_eq_true, beq_iff_eq, Option.any_eq_true] at hif
      obtain ⟨⟨rfl, hhttp⟩, hlast⟩ := hif
      refine ⟨⟨w, hlabel⟩, ?_, hlast⟩
      cases hr : t.request with
      | http r sent => exact ⟨t, r, sent, hcall, hr⟩
      | _ =>
        rw [hr] at hhttp
        cases hhttp
    · cases h
  · cases h

/-- After the steps that are no read or write of the request comes one that `q` holds of. -/
def nextAt (i : Nat) (q : Entry Proxy Act → Bool) : ProxyTrace → Bool
  | [] => false
  | e :: tr => q e || !touchesAt i e && nextAt i q tr

/-- `q` holds of a step and the last read or write of the request before it. -/
def lastAt (i : Nat) (q : Entry Proxy Act → Entry Proxy Act → Bool) : ProxyTrace → Bool
  | [] => false
  | e :: tr => touchesAt i e && nextAt i (q e) tr || lastAt i q tr

theorem split_of_nextAt {q : Entry Proxy Act → Bool} :
    ∀ {tr : ProxyTrace}, nextAt i q tr = true →
      ∃ tr₂ e tr₃, tr = tr₂ ++ e :: tr₃ ∧ (∀ e ∈ tr₂, ¬ Touches i e) ∧ q e = true
  | [], h => by cases h
  | e :: tr, h => by
    simp only [nextAt, Bool.or_eq_true, Bool.and_eq_true, Bool.not_eq_true'] at h
    rcases h with h | ⟨hquiet, h⟩
    · exact ⟨[], e, tr, rfl, (fun e he => by cases he), h⟩
    · obtain ⟨tr₂, e', tr₃, rfl, hall, hq⟩ := split_of_nextAt h
      refine ⟨e :: tr₂, e', tr₃, rfl, fun e'' he => ?_, hq⟩
      rcases List.mem_cons.1 he with rfl | he
      · rw [← touchesAt_iff, hquiet]
        exact Bool.false_ne_true
      · exact hall e'' he

theorem lastTouch_of_lastAt {q : Entry Proxy Act → Entry Proxy Act → Bool} :
    ∀ {tr : ProxyTrace}, lastAt i q tr = true → ∃ e₁ e₂, LastTouch tr i e₁ e₂ ∧ q e₁ e₂ = true
  | [], h => by cases h
  | e :: tr, h => by
    simp only [lastAt, Bool.or_eq_true, Bool.and_eq_true] at h
    rcases h with ⟨htouches, h⟩ | h
    · obtain ⟨tr₂, e₂, tr₃, rfl, hall, hq⟩ := split_of_nextAt h
      exact ⟨e, e₂, ⟨touchesAt_iff.1 htouches, [], tr₂, tr₃, rfl, hall⟩, hq⟩
    · obtain ⟨e₁, e₂, ⟨htouches, tr₁, tr₂, tr₃, rfl, hall⟩, hq⟩ := lastTouch_of_lastAt h
      exact ⟨e₁, e₂, ⟨htouches, e :: tr₁, tr₂, tr₃, rfl, hall⟩, hq⟩

/-- A program that has returned, or that reads or writes the database next and not for its stamp: it cannot come to its
stamp before. -/
def unready {α : Type} : Prog Api α → Bool
  | .ret _ => true
  | .call .instanceId _ => false
  | .call c _ => c.touches

theorem not_canStamp_of_unready {α : Type} {p : Prog Api α} (h : unready p = true) : ¬ CanStamp p := by
  cases p with
  | ret a => exact fun h => h.elim
  | call c next =>
    rintro (⟨rfl, -⟩ | ⟨htouches, -⟩)
    · cases h
    · have hunready : unready (.call c next) = c.touches ∨ unready (.call c next) = false := by
        cases c <;> first | exact .inl rfl | exact .inr rfl
      rw [h, htouches] at hunready
      simp at hunready

/-- The request cannot come to its stamp when a database is put in place, if it takes the gate itself. -/
def undisturbedAt (i : Nat) (e : Entry Proxy Act) : Bool :=
  match taskCall e with
  | some (_, ⟨.replaceWith _, _⟩) => e.pre.tasks[i]?.all fun t => !t.request.selfGated || unready t.task.prog
  | _ => true

theorem undisturbed_of_undisturbedAt (h : undisturbedAt i e = true) : Undisturbed i e := by
  rintro ⟨u, store, hcall⟩ t ht hselfGated -
  simp only [undisturbedAt, hcall, ht, Option.all_some, hselfGated, Bool.not_true, Bool.false_or] at h
  exact not_canStamp_of_unready h

/-! ### The requests whose responses name it -/

section Claim

variable {b : Boot} {trace : ProxyTrace} {s : Proxy} {i : Nat}

theorem Touches.touched (h : Touches i e) (hstep : e.pre.step e.label = some e.post) :
    ∃ t, e.post.tasks[i]? = some t ∧ t.Touched := by
  obtain ⟨w, hlabel⟩ := h.label
  obtain ⟨t, ev, hcall, htouches⟩ := h.call
  obtain ⟨task, app, ht, hmade⟩ := taskCall_of_label hcall hlabel
  rw [hlabel] at hstep
  refine ⟨_, Proxy.task_of_call hstep ht hmade, ev, ?_, htouches⟩
  change ev ∈ task.made
  rw [(Task.step_eq_some hmade).2]
  exact List.mem_concat_self

/-- In every run in which no database is put in place while a request that takes the gate itself has read or written and
may come to its stamp without doing so again, its response names the database its handler last read or wrote. Of the
requests that run under the hold of the middleware nothing is asked. -/
theorem response_names_database (run : ProxyRun b trace s) (h : ∀ e ∈ trace, Undisturbed i e) :
    NamesDatabase trace s i := by
  refine ⟨fun e₁ e₂ v hlast hstamped => ?_, fun t r sent ht hr hresult => ?_⟩
  · obtain ⟨tr₁, tr₂, tr₃, rfl, hbetween⟩ := hlast.last
    obtain ⟨hrun₁, hrun₂⟩ := run.after
    obtain ⟨hrun₂, hstep₂⟩ := hrun₂.before
    obtain ⟨t₁, ht₁, htouched⟩ := hlast.touches.touched run.before.2
    obtain ⟨t, ht, hr, hmade⟩ := task_of_run hrun₂ ht₁
    have hall := hrun₁.append hrun₂
    obtain ⟨hbound, hv⟩ := hstamped.bound hall hstep₂ ht (htouched.mono hmade).begun
    obtain ⟨r, sent, hhttp⟩ : ∃ r sent, t.request = .http r sent := by
      obtain ⟨w, hlabel⟩ := hstamped.label
      obtain ⟨u, r, sent, hcall, hu⟩ := hstamped.call
      obtain ⟨j, w', task, app, hlabel', hu', -⟩ := taskCall_eq_some hcall
      obtain ⟨rfl, rfl⟩ := Act.call.inj (hlabel.symm.trans hlabel')
      obtain rfl := Option.some_inj.1 (ht.symm.trans hu')
      exact ⟨r, sent, hu⟩
    have hsame := sameDatabase_of_bound hrun₁ hrun₂ ht₁ (hr.symm.trans hhttp) htouched hbetween
      (fun e he => h e (by simp [he])) t ht hbound
    exact ⟨hv.trans hsame.instanceId, hsame.imports⟩
  · refine (stamped_of_run run i t r sent ht hr).resolve_left fun hwill => hresult ?_
    cases hprog : t.task.prog with
    | ret r => rw [hprog] at hwill; exact hwill.elim
    | call c next => rfl

end Claim

def addOne : Act := .request (.http (.addUser [2] ['n'] (.error ())) none)

/-- A user is added, and then the database is replaced, under the instance that is drawn. -/
def addThenImport : List Act := addOne :: calls 0 17 ++ importOther :: calls 1 17 { token := ['k'] }

/-- The import's own response names the database it put in place. -/
theorem response_names_database_import : ∃ s, ProxyRun { store := oneServer }
    (scriptedProxy { store := oneServer } addThenImport) s ∧
    ∃ e₁ e₂ v, LastTouch (scriptedProxy { store := oneServer } addThenImport) 1 e₁ e₂ ∧ Stamped 1 v e₂ ∧
      v = some ['k'] ∧ v = e₁.post.app.store.instanceId := by
  obtain ⟨s, run, -⟩ := scriptedProxy_run { store := oneServer } addThenImport (fun _ => true) (by decide +kernel)
  have hundisturbed : (scriptedProxy { store := oneServer } addThenImport).all (undisturbedAt 1) = true := by
    decide +kernel
  have hlast : lastAt 1 (fun _ e₂ => stampedAt 1 e₂ == some (some ['k']))
      (scriptedProxy { store := oneServer } addThenImport) = true := by decide +kernel
  obtain ⟨e₁, e₂, htouch, hq⟩ := lastTouch_of_lastAt hlast
  have hstamped := stamped_of_stampedAt (beq_iff_eq.1 hq)
  have hnames := response_names_database run (i := 1)
    fun e he => undisturbed_of_undisturbedAt (List.all_eq_true.1 hundisturbed e he)
  exact ⟨s, run, e₁, e₂, some ['k'], htouch, hstamped, rfl, (hnames.stamp e₁ e₂ _ htouch hstamped).1⟩

/-- The user is added, and the database replaced before the response is stamped. -/
def importBeforeStamp : List Act :=
  addOne :: calls 0 16 ++ importOther :: calls 1 17 { token := ['k'] } ++ calls 0 1

/-- The response to a user being added names a database that was put in place after the handler was done. -/
theorem response_names_other : ∃ s trace, ProxyRun { store := oneServer } trace s ∧ ∃ e₁ e₂ v,
    LastTouch trace 0 e₁ e₂ ∧ Stamped 0 v e₂ ∧ v = some ['k'] ∧ e₁.post.app.store.instanceId = some ['i'] := by
  obtain ⟨s, run, -⟩ := scriptedProxy_run { store := oneServer } importBeforeStamp (fun _ => true) (by decide +kernel)
  have hlast : lastAt 0 (fun e₁ e₂ => stampedAt 0 e₂ == some (some ['k']) &&
      e₁.post.app.store.instanceId == some ['i']) (scriptedProxy { store := oneServer } importBeforeStamp) = true := by
    decide +kernel
  obtain ⟨e₁, e₂, htouch, hq⟩ := lastTouch_of_lastAt hlast
  obtain ⟨hstamp, hinstance⟩ := Bool.and_eq_true_iff.1 hq
  exact ⟨s, _, run, e₁, e₂, some ['k'], htouch, stamped_of_stampedAt (beq_iff_eq.1 hstamp), rfl, beq_iff_eq.1 hinstance⟩

end WebAccess
