/-
A change acts on the database its page was loaded from. A change that names ids carries the instance of the
database its page shows; the middleware compares it under the hold the handler then runs in. What the request
reads from there on is read in the database it writes to, so between the comparison and the last write no other
database is put in place, and the instance is the one that was carried.
-/
import WebAccess.Serve.Stamping

namespace WebAccess

open Codec Wire Process Transition

/-! ## The comparison comes first -/

/-- All routes but sign-out, those that take the gate themselves and those of the migration. -/
def Route.carries (r : Route) : Bool :=
  !routeIn selfGatedRoutes r.method r.path && r.path != "/api/logout" &&
    !"/api/admin/migration/".toList.isPrefixOf r.path

def Call.changes (c : Call) : Bool := c.writes && c.touches

theorem App.store_of_not_changes {m : Holder} {w : World} {a : App} {c : Call} (h : c.changes = false) :
    (App.answer m w c a).2.store = a.store := by
  cases c <;> first | rfl | cases h

theorem Route.needsInstance_or {r : Route} (h : r.carries = true) :
    needsInstance r.method r.path = true ∨ ∀ tag ∈ r.footprint, tag = .register := by
  cases r with
  | page | wsUpgrade | myNotices => exact .inr (by simp [footprint])
  | logout | login | ssoSignIn | addUser | setDirectoryPassword | exportDatabase | uploadImport
    | confirmImport | setRecovery
    | unlock | resetCredentialStore | unfreeze | cancelImport => cases h
  | _ => exact .inl rfl

namespace Request

def carries : Request → Bool
  | http r _ => r.carries
  | _ => false

def sent : Request → Option Text
  | http _ sent => sent
  | _ => none

end Request

/-- A request writes the database only when it has found the instance to be the one it carries. -/
abbrev Comparing (carries : Bool) (sent : Option Text) : Protocol Api :=
  .logging fun made c => carries = true → c.changes = true → ⟨.instanceId, sent⟩ ∈ made

variable {carries : Bool} {sent : Option Text}

theorem comparing_of_found {α : Type} {q : List (Event Api)} (hq : (⟨.instanceId, sent⟩ : Event Api) ∈ q)
    (p : Prog Api α) : p.Obeys (Comparing carries sent) (fun q _ => ⟨.instanceId, sent⟩ ∈ q) q := by
  have hmakes : ∀ p : Prog Api α, p.Makes fun _ => True := by
    intro p
    induction p with
    | ret a => trivial
    | call c next ih => exact ⟨trivial, ih⟩
  refine obeys_of_makes (P := Comparing carries sent) (I := fun q => (⟨.instanceId, sent⟩ : Event Api) ∈ q)
    (fun q c hq _ => ⟨fun _ _ => hq, fun a => List.mem_append_left _ hq⟩) (hmakes p) hq

theorem comparing_of_quiet {α : Type} {tags : List Tag} {p : Prog Api α} (hp : Within tags p)
    (htags : carries = true → ∀ tag ∈ tags, tag = .register) (q : List (Event Api)) :
    p.Obeys (Comparing carries sent) (fun _ _ => True) q := by
  refine obeys_of_makes (P := Comparing carries sent) (I := fun _ => True)
    (fun q c _ hc => ⟨fun hcarries hchanges => ?_, fun _ => trivial⟩) hp trivial
  have htag : c.tag = .look ∨ c.tag = .register := by
    rw [Call.among, List.contains_iff_mem, List.mem_cons] at hc
    exact hc.imp_right (htags hcarries c.tag)
  rcases htag with htag | htag
  · simp [Call.changes, Call.writes, htag] at hchanges
  · cases c with
    | register => cases hchanges
    | _ => cases htag

theorem comparing_program (r : Request) : r.program.Obeys (Comparing r.carries r.sent) (fun _ _ => True) [] := by
  cases hcarries : r.carries with
  | false => exact obeys_of_allows (P := Comparing false r.sent) (fun _ _ h => nomatch h) _ _
  | true =>
    obtain ⟨route, sent, rfl⟩ : ∃ route sent, r = .http route sent := by
      cases r with
      | http route sent => exact ⟨route, sent, rfl⟩
      | _ => cases hcarries
    replace hcarries : route.carries = true := hcarries
    have hself : routeIn selfGatedRoutes route.method route.path = false := by
      simp only [Route.carries, Bool.and_eq_true, Bool.not_eq_true'] at hcarries
      exact hcarries.1.1
    have hstamp : ∀ {α : Type} {p : Prog Api α} {q : List (Event Api)},
      p.Obeys (Comparing true sent) (fun _ _ => True) q →
        (stamped p).Obeys (Comparing true sent) (fun _ _ => True) q := by
      intro α p q hp
      exact obeys_bind.2 (hp.mono fun q r _ => ⟨fun _ h => Bool.noConfusion h, fun _ => trivial⟩)
    simp only [Request.program, Route.program, gateRequests, hself, Bool.false_eq_true, if_false]
    refine obeys_call (P := Comparing true sent) (fun _ h => Bool.noConfusion h) fun _ => obeys_bind.2 ?_
    refine Prog.Obeys.mono (fun q r _ => ⟨fun _ h => Bool.noConfusion h, fun _ => trivial⟩) (hstamp ?_)
    unfold checkInstance
    split
    · refine obeys_call (P := Comparing true sent) (fun _ h => Bool.noConfusion h) fun current => ?_
      simp only []
      split
      · trivial
      · rename_i hsame
        simp only [Bool.or_eq_true, List.isEmpty_iff, bne_iff_ne, not_or, not_not] at hsame
        obtain ⟨hsome, rfl⟩ := hsame
        cases current with
        | none => exact absurd rfl hsome
        | some current =>
          exact (comparing_of_found (List.mem_concat_self) _).mono fun _ _ _ => trivial
    · rename_i hneeds
      exact comparing_of_quiet route.within_handler
        (fun _ => (Route.needsInstance_or hcarries).resolve_left hneeds) _

/-! ## From the comparison to the last write -/

/-- A step of a request changes the database. -/
structure ChangesRow (i : Nat) (t : Running) (e : Entry Proxy Act) : Prop where
  label : ∃ w, e.label = .call i w
  task : e.pre.tasks[i]? = some t
  store : e.post.app.store ≠ e.pre.app.store

structure ReadsInstance (i : Nat) (v : Option Text) (e : Entry Proxy Act) : Prop where
  label : ∃ w, e.label = .call i w
  call : ∃ t, taskCall e = some (t, ⟨.instanceId, v⟩)

/-- Databases that are put in place one after the other have different instances. -/
def FreshInstances (trace : ProxyTrace) : Prop :=
  ∀ x ∈ trace, ∀ y ∈ trace, x.pre.app.store.instanceId = y.pre.app.store.instanceId →
    x.pre.app.imports = y.pre.app.imports

/-- What is so when a request changes a row, in the step after `trace`. It has read the instance, and whenever it did,
the instance was the one it carries from then on until the change; and if instances are fresh, no database was put in
place since any page was loaded that showed the instance. -/
structure OnLoaded (trace : ProxyTrace) (i : Nat) (sent : Option Text) (e : Entry Proxy Act) : Prop where
  compared : ∃ c ∈ trace, ReadsInstance i sent c
  between : ∀ tr₁ c tr₂ v, trace = tr₁ ++ c :: tr₂ → ReadsInstance i v c →
    ∀ x ∈ c :: (tr₂ ++ [e]), x.pre.app.store.instanceId = sent
  loaded : FreshInstances (trace ++ [e]) → ∀ p ∈ trace, p.pre.app.store.instanceId = sent →
    p.pre.app.imports = e.pre.app.imports

section Runs

variable {b : Boot} {trace tr : ProxyTrace} {s s' : Proxy} {i : Nat} {t : Running}

theorem sameDatabase_of_run (run : ProxyRun b trace s) (hrun : ProxyPath s tr s')
    (hquiet : ∀ e ∈ tr, ¬ Replaces e) : s.app.SameDatabase s'.app := by
  induction hrun with
  | nil => exact .refl _
  | snoc hrun hstep ih =>
    refine (ih fun e he => hquiet e (List.mem_append_left _ he)).trans ?_
    exact sameDatabase_of_step (gated_of_run (run.append hrun)).2 hstep (hquiet _ (by simp))

theorem seen_of_run (hrun : ProxyPath s tr s') (ht : s.tasks[i]? = some t) :
    ∃ t', s'.tasks[i]? = some t' ∧ t.seen ⊆ t'.seen := by
  induction hrun with
  | nil => exact ⟨t, ht, List.Subset.refl _⟩
  | snoc _ hstep ih =>
    obtain ⟨t', ht', hseen⟩ := ih
    rcases Proxy.task_goes hstep ht' with ht'' | ⟨w, ev, task, app, rfl, -, ht''⟩
    · exact ⟨t', ht'', hseen⟩
    · exact ⟨_, ht'', fun n hn => Call.mem_sees (hseen hn)⟩

variable {v : Option Text} {c : Entry Proxy Act}

theorem ReadsInstance.seen (h : ReadsInstance i v c) (hstep : c.pre.step c.label = some c.post) :
    v = c.pre.app.store.instanceId ∧ ∃ t, c.post.tasks[i]? = some t ∧ c.pre.app.imports ∈ t.seen := by
  obtain ⟨w, hlabel⟩ := h.label
  obtain ⟨t, hcall⟩ := h.call
  obtain ⟨task, app, ht, hmade⟩ := taskCall_of_label hcall hlabel
  rw [hlabel] at hstep
  exact ⟨(App.served hmade).2.1, _, Proxy.task_of_call hstep ht hmade, Call.mem_sees_self (c := .instanceId) rfl⟩

theorem ReadsInstance.same {tr₁ tr₂ : ProxyTrace} (h : ReadsInstance i v c) (run : ProxyRun b (tr₁ ++ c :: tr₂) s)
    (ht : s.tasks[i]? = some t) (hseen : ∀ n ∈ t.seen, n = s.app.imports) :
    v = s.app.store.instanceId ∧ ∀ x ∈ c :: tr₂, x.pre.app.store.instanceId = s.app.store.instanceId := by
  obtain ⟨hv, t₁, ht₁, hmem⟩ := h.seen run.before.2
  obtain ⟨t₂, ht₂, hsub⟩ := seen_of_run run.after.2 ht₁
  obtain rfl := Option.some_inj.1 (ht.symm.trans ht₂)
  have hquiet := not_replaces_of_run run.onward (hseen _ (hsub hmem))
  have hsame : ∀ x ∈ c :: tr₂, x.pre.app.store.instanceId = s.app.store.instanceId := by
    intro x hx
    obtain ⟨mid₁, mid₂, hmid⟩ := List.append_of_mem hx
    rw [hmid] at hquiet
    rw [hmid, ← List.append_assoc] at run
    exact (sameDatabase_of_run run.before.1 run.onward fun e he =>
      hquiet e (List.mem_append_right _ he)).instanceId.symm
  exact ⟨hv.trans (hsame c List.mem_cons_self), hsame⟩

/-- A change acts only on the database its page was loaded from: in every run, whenever a request of a route that is
asked for the instance changes a row, the instance it carries is that of the database from the comparison to the
change. -/
theorem change_on_loaded_database {e : Entry Proxy Act} {rest : ProxyTrace} (run : ProxyRun b (trace ++ e :: rest) s)
    (hchanges : ChangesRow i t e) (hcarries : t.request.carries = true) : OnLoaded trace i t.request.sent e := by
  obtain ⟨hrun, hstep⟩ := run.before
  obtain ⟨⟨w, hlabel⟩, ht, hstore⟩ := hchanges
  have hmem := List.mem_of_getElem? ht
  obtain ⟨ev, task, app, hmade, rfl⟩ : ∃ ev task app, t.task.step (App.serve (.task i) w) e.pre.app =
    some (ev, task, app) ∧
      e.post.app = app := by
    rw [hlabel] at hstep
    obtain ⟨u, hu, hstep⟩ := Option.bind_eq_some_iff.1 hstep
    obtain rfl := Option.some_inj.1 (ht.symm.trans hu)
    obtain ⟨⟨ev, task, app⟩, hmade, hstep⟩ := Option.bind_eq_some_iff.1 hstep
    exact ⟨ev, task, app, hmade, by rw [← Option.some_inj.1 hstep]⟩
  have hcall : ev.call.changes = true := by
    rw [← Bool.not_eq_false]
    intro hquiet
    rw [(App.served hmade).2.2, App.store_of_not_changes hquiet] at hstore
    exact hstore rfl
  have hseen : ∀ n ∈ t.seen, n = e.pre.app.imports := by
    refine (fenced_of_run hrun).seen_of_writes (gated_of_run hrun).1 hmem hmade ?_ (Bool.and_eq_true_iff.1 hcall).1
    cases hr : t.request with
    | http r sent =>
      rw [hr] at hcarries
      cases r <;> first | rfl | cases hcarries
    | _ =>
      rw [hr] at hcarries
      cases hcarries
  have hobeys := obeys_of_run hrun (P := fun r => Comparing r.carries r.sent) comparing_program t hmem
  have hfound : (⟨.instanceId, t.request.sent⟩ : Event Api) ∈ t.task.made := by
    simpa using (hobeys.step hmade).1 hcarries hcall
  obtain ⟨c, hc, hcallOf⟩ := calls_of_run hrun i t ht _ hfound
  obtain ⟨t₀, hcall₀, -⟩ := hcallOf.task
  have hreads : ReadsInstance i t.request.sent c := ⟨hcallOf.label, t₀, hcall₀⟩
  have hsent : t.request.sent = e.pre.app.store.instanceId := by
    obtain ⟨tr₁, tr₂, rfl⟩ := List.append_of_mem hc
    exact (hreads.same hrun ht hseen).1
  refine ⟨⟨c, hc, hreads⟩, fun tr₁ c tr₂ v htrace h x hx => ?_, fun hfresh p hp hpage => ?_⟩
  · subst htrace
    rw [hsent]
    rcases List.mem_append.1 (show x ∈ (c :: tr₂) ++ [e] from hx) with hx | hx
    · exact (h.same hrun ht hseen).2 x hx
    · rw [List.mem_singleton.1 hx]
  · exact hfresh p (List.mem_append_left _ hp) e (by simp) (hpage.trans hsent)

end Runs

/-- The administrator deletes the server, from a page of the database. -/
def removeFromPage : List Act := .request (.http (.removeServer [2] 1) (some ['i'])) :: calls 0 9

def Act.calls (i : Nat) : Act → Bool
  | .call j _ => i == j
  | _ => false

/-- A server is removed from a page that was loaded from the database in place. -/
theorem change_on_loaded_database_removed : ∃ s trace e rest t,
    ProxyRun { store := oneServer } (trace ++ e :: rest) s ∧ ChangesRow 0 t e ∧ t.request.carries = true ∧
      OnLoaded trace 0 (some ['i']) e := by
  obtain ⟨s, run, -⟩ := scriptedProxy_run { store := oneServer } removeFromPage (fun _ => true) (by decide +kernel)
  have hany : (scriptedProxy { store := oneServer } removeFromPage).any (fun e => e.label.calls 0 &&
      (e.pre.tasks[0]?.any fun t => t.request.carries && t.request.sent == some ['i']) &&
      e.post.app.store.servers.rows.length != e.pre.app.store.servers.rows.length) = true := by decide +kernel
  obtain ⟨e, he, hany⟩ := List.any_eq_true.1 hany
  simp only [Bool.and_eq_true, bne_iff_ne, Option.any_eq_true, beq_iff_eq] at hany
  obtain ⟨⟨hlabel, t, ht, hcarries, hsent⟩, hlength⟩ := hany
  obtain ⟨trace, rest, htrace⟩ := List.append_of_mem he
  rw [htrace] at run
  have hchanges : ChangesRow 0 t e := by
    refine ⟨?_, ht, fun h => hlength (by rw [h])⟩
    unfold Act.calls at hlabel
    split at hlabel
    · rename_i w hlabel'
      exact ⟨w, (beq_iff_eq.1 hlabel) ▸ hlabel'⟩
    · cases hlabel
  exact ⟨s, trace, e, rest, t, run, hchanges, hcarries, hsent ▸ change_on_loaded_database run hchanges hcarries⟩

end WebAccess
