/-
A connection is admitted on a ticket. Every ticket in the table was issued by a connect request whose
check of the assignment had succeeded, in the database in place: an import clears the table before
anybody else has the gate again. A redemption takes its ticket out of the table, and an admission goes
on only with the ticket of its own user and for the server its client named.
-/
import Mathlib.Data.List.Pairwise
import WebAccess.Serve.Fencing
import WebAccess.Serve.History
import WebAccess.Serve.Revocation

namespace WebAccess

open Codec Wire Process Transition

/-! ## The table -/

namespace Tickets

variable {s : Tickets} {token : Text} {now : Nat} {i : Issued}

variable {ticket : Ticket}

theorem mem_issue (h : i ∈ (s.issue token ticket now).issued) : i ∈ s.issued ∨ i = ⟨token, ticket, now⟩ := by
  rcases List.mem_append.1 h with h | h
  · exact .inl (List.mem_of_mem_filter (List.mem_of_mem_filter h))
  · exact .inr (List.mem_singleton.1 h)

theorem mem_redeem (h : i ∈ (s.redeem token now).2.issued) : i ∈ s.issued ∧ i.token ≠ token := by
  unfold redeem at h
  split at h
  · rename_i hnone
    exact ⟨h, by simpa using List.find?_eq_none.1 hnone i h⟩
  · simpa using List.mem_filter.1 h

theorem redeem_eq_some (h : (s.redeem token now).1 = some ticket) :
    ∃ i ∈ s.issued, i.token = token ∧ i.ticket = ticket ∧ now < i.minted + ticketTtl := by
  unfold redeem at h
  split at h
  · cases h
  · rename_i i hfound
    simp only [] at h
    split at h
    · rename_i hfresh
      cases h
      refine ⟨i, List.mem_of_find?_eq_some hfound, by simpa using List.find?_some hfound, rfl, ?_⟩
      unfold ticketTtl at hfresh ⊢
      omega
    · cases h

end Tickets

/-! ## Who issues tickets -/

/-- A ticket is issued by a connect request, for the user of its sign-in, once the server has been
found to be assigned. -/
structure Granted (r : Request) (made : List (Event Api)) (ticket : Ticket) : Prop where
  request : ∃ tokenHash serverId sent, r = .http (.connect tokenHash serverId) sent ∧
    ∃ u : User, ⟨.sessionUser tokenHash, some u⟩ ∈ made ∧ u.id = ticket.userId
  assigned : ⟨.isAssigned ticket.userId ticket.serverId, true⟩ ∈ made

abbrev Granting (r : Request) : Protocol Api := .logging fun made c => ∀ ticket, c = .issue ticket →
    Granted r made ticket

section Granting

variable {α : Type} {r : Request} {tags : List Tag}

variable {made : List (Event Api)}

theorem granting_within {p : Prog Api α} (hp : Within tags p) (hticket : tags.contains .ticket = false) :
    p.Obeys (Granting r) (fun _ _ => True) made := by
  refine obeys_of_makes (P := Granting r) (I := fun _ => True) (fun made c _ hc => ⟨?_, fun _ => trivial⟩) hp trivial
  rintro ticket rfl
  exact absurd rfl (hc.tag_ne hticket nofun)

variable {sent : Option Text}

theorem granting_gateRequests {method : Method} {path : Text} {p : Prog Api (ApiResult α)}
    (hp : ∀ made, p.Obeys (Granting r) (fun _ _ => True) made) :
    (gateRequests method path sent p).Obeys (Granting r) (fun _ _ => True) made := by
  have hcheck : ∀ made, (checkInstance method path sent p).Obeys (Granting r) (fun _ _ => True) made := by
    intro made
    unfold checkInstance
    split
    · refine obeys_call nofun fun current => ?_
      simp only []
      split
      · trivial
      · exact hp _
    · exact hp made
  unfold gateRequests
  split
  · exact obeys_bind.2 ((hp made).mono fun _ _ _ => ⟨nofun, fun _ => trivial⟩)
  · refine obeys_call nofun fun _ => obeys_bind.2 (obeys_bind.2 ((hcheck _).mono fun _ _ _ => ?_))
    exact ⟨nofun, fun _ => ⟨nofun, fun _ => trivial⟩⟩

theorem granting_connect {tokenHash : Bytes} {serverId : Int} (hr : r = .http (.connect tokenHash serverId) sent) :
    (connect tokenHash serverId).Obeys (Granting r) (fun _ _ => True) made := by
  refine obeys_call nofun fun found => ?_
  cases found with
  | none => trivial
  | some user =>
    refine obeys_bind.2 ?_
    unfold resolve
    split
    · trivial
    refine obeys_call nofun fun found => ?_
    cases found with
    | none => trivial
    | some server =>
      refine obeys_call nofun fun assigned => ?_
      cases assigned with
      | false => trivial
      | true =>
        refine obeys_call ?_ fun token => ?_
        · rintro ticket ⟨⟩
          exact ⟨⟨tokenHash, serverId, sent, hr, user, by simp, rfl⟩, by simp⟩
        · have hopen : Within [] (openSaved user server) := within_openSaved
          exact obeys_bind.2 ((granting_within hopen rfl).mono fun _ _ _ => trivial)

theorem Request.connect_of_ticket (h : r.footprint.contains .ticket = true) :
    ∃ tokenHash serverId sent, r = .http (.connect tokenHash serverId) sent := by
  cases r with
  | http r sent => cases r <;> first | exact absurd h Bool.false_ne_true | exact ⟨_, _, _, rfl⟩
  | _ => exact absurd h Bool.false_ne_true

theorem granting_program (r : Request) : r.program.Obeys (Granting r) (fun _ _ => True) [] := by
  by_cases hticket : r.footprint.contains .ticket = true
  · obtain ⟨tokenHash, serverId, sent, rfl⟩ := Request.connect_of_ticket hticket
    have hhandler : ∀ made, (Route.connect tokenHash serverId).handler.Obeys
        (Granting (.http (.connect tokenHash serverId) sent)) (fun _ _ => True) made :=
      fun made => obeys_bind.2 ((granting_connect rfl).mono fun _ _ _ => trivial)
    unfold Request.program Route.program
    exact granting_gateRequests hhandler
  · exact granting_within r.within_program (Bool.eq_false_iff.2 hticket)

end Granting

/-! ## What an admission has found -/

/-- An admission that lets its client through has found a ticket of the user for the server, the
server under the number the client named, and its assignment. -/
structure Found (user : User) (targetId token : Text) (target : Server) (made : List (Event Api)) : Prop where
  redeemed : ⟨.redeem token, some ⟨user.id, target.id⟩⟩ ∈ made
  named : ∃ n, parseI64 targetId = some n ∧ ⟨.serverById n, some target⟩ ∈ made
  assigned : ⟨.isAssigned user.id target.id, true⟩ ∈ made

abbrev Following : Protocol Api := .logging fun _ _ => True

/-- It comes out with that, and gives the gate back last. -/
def LetThrough (user : User) (targetId token : Text) (made : List (Event Api)) (r : Except Refusal Server) : Prop :=
  ∀ target, r = .ok target → ∃ before, made = before ++ [⟨.release, ()⟩] ∧ Found user targetId token target before

section Following

variable {liveId : Nat} {user : User} {tokenHash : Bytes} {targetId token : Text} {made : List (Event Api)}

theorem following_checkTicket {ticket : Ticket} (huser : ticket.userId = user.id)
    (hredeemed : ⟨.redeem token, some ticket⟩ ∈ made) :
    (checkTicket liveId user tokenHash targetId ticket).Obeys Following
      (fun made r => ∀ target, r = .ok target → Found user targetId token target made) made := by
  refine obeys_call trivial fun _ => obeys_call trivial fun session => ?_
  cases session with
  | none => rintro _ ⟨⟩
  | some u =>
    simp only []
    split
    · refine obeys_bind.2 ?_
      unfold resolve
      split
      · rintro _ ⟨⟩
      rename_i n hn
      refine obeys_call trivial fun found => ?_
      cases found with
      | none => rintro _ ⟨⟩
      | some server =>
        refine obeys_call trivial fun assigned => ?_
        cases assigned with
        | false => rintro _ ⟨⟩
        | true =>
          simp only [if_true, obeys_pure]
          split
          · rename_i hid
            obtain ⟨userId, serverId⟩ := ticket
            obtain rfl : server.id = serverId := beq_iff_eq.1 hid
            obtain rfl : userId = user.id := huser
            refine obeys_call trivial fun rows => ?_
            cases rows with
            | none => rintro _ ⟨⟩
            | some rows =>
              refine obeys_call trivial fun _ => ?_
              rintro target ⟨⟩
              exact ⟨by simp [hredeemed], ⟨n, hn, by simp⟩, by simp⟩
          · rintro _ ⟨⟩
    · rintro _ ⟨⟩

theorem following_admit (liveId : Nat) (user : User) (tokenHash : Bytes) (targetId token : Text) :
    (admitSession liveId user tokenHash targetId token).Obeys Following (LetThrough user targetId token) [] := by
  refine obeys_call trivial fun _ => obeys_bind.2 (Prog.Obeys.mono
    (fun made r (h : ∀ target, r = .ok target → Found user targetId token target made) => ?_) ?_)
  · exact ⟨trivial, fun _ target htarget => ⟨made, rfl, h target htarget⟩⟩
  · refine obeys_call trivial fun opened => obeys_call trivial fun generation => ?_
    split
    · refine obeys_call trivial fun ticket => ?_
      cases ticket with
      | none => exact nofun
      | some ticket =>
        simp only []
        split
        · rename_i huser
          exact following_checkTicket (beq_iff_eq.1 huser) (by simp)
        · exact nofun
    · exact nofun

end Following

/-! ## Where the tickets of the table come from -/

/-- A step issued a ticket, as a connect request that had found the server assigned. -/
structure IssuedBy (i : Issued) (e : Entry Proxy Act) : Prop where
  call : ∃ t, taskCall e = some (t, ⟨.issue i.ticket, i.token⟩) ∧ Granted t.request t.task.made i.ticket
  minted : i.minted = e.label.world.instant

/-- The tickets of the table were issued, in the database in place unless a swap is on its way; an
admission is of a client's request. -/
structure Ticketing (trace : ProxyTrace) (s : Proxy) : Prop where
  grants : ∀ t ∈ s.tasks, t.task.Obeys (Granting t.request) [] fun _ _ => True
  issued : ∀ i ∈ s.app.tickets.issued, ∃ e ∈ trace, IssuedBy i e ∧
    ((∀ t ∈ s.tasks, t.grip.stage = .idle) → e.pre.app.imports = s.app.imports)
  admits : ∀ (id : Nat) x t, s.sessions[id]? = some x → x.phase = .admitting t → ∃ e ∈ trace, ∃ targetId token,
    e.label = .ask id targetId token ∧ t.Obeys Following [] (LetThrough x.user targetId token)

section Steps

variable {tr : ProxyTrace} {s s' : Proxy} {a : Act}

variable {w : World}

variable {m : Holder} {ev : Event Api}

theorem mem_tickets_answer {c : Call} {a : App} {i : Issued} (h : i ∈ (App.answer m w c a).2.tickets.issued) :
    i ∈ a.tickets.issued ∨ ∃ ticket, c = .issue ticket ∧ i = ⟨w.token, ticket, w.instant⟩ := by
  cases c with
  | issue ticket => exact (Tickets.mem_issue h).imp_right fun h => ⟨ticket, rfl, h⟩
  | redeem token => exact .inl (Tickets.mem_redeem h).1
  | clearTickets => cases h
  | _ => exact .inl h

theorem Grip.idle_of_next {q : Grip} {a : App} (hidle : (q.next ev).stage = .idle) (hclear : ev.call ≠ .clearTickets) :
    q.stage = .idle ∧ (App.answer m w ev.call a).2.imports = a.imports := by
  obtain ⟨c, ans⟩ := ev
  cases c with
  | replaceWith | bumpGeneration => cases hidle
  | clearTickets => exact absurd rfl hclear
  | _ => exact ⟨hidle, rfl⟩

theorem Ticketing.issued_call {i : Nat} {t : Running} {task : Task Api (ApiResult Reply)} {app : App}
    {tasks : List Running} {post : Proxy} (h : Ticketing tr s) (hg : Gated s) (ht : s.tasks[i]? = some t)
    (hmade : t.task.step (App.serve (.task i) w) s.app = some (ev, task, app))
    (htasks : tasks = s.tasks.set i (t.went s.app.imports ev task)) :
    ∀ v ∈ app.tickets.issued, ∃ e ∈ tr ++ [⟨s, .call i w, post⟩], IssuedBy v e ∧
      ((∀ t ∈ tasks, t.grip.stage = .idle) → e.pre.app.imports = app.imports) := by
  have hmem := List.mem_of_getElem? ht
  obtain ⟨-, hnext, -⟩ := (hg.tasks t hmem).step s.app.imports hmade
  obtain ⟨hgrant, -, -⟩ := (h.grants t hmem).step hmade
  have htc : ∀ post, taskCall ⟨s, .call i w, post⟩ = some (t, ev) := fun post => by simp [taskCall, ht, hmade]
  obtain ⟨-, hans, rfl⟩ := App.served hmade
  intro v hv
  -- if everybody is idle afterwards, so they were before, and the database stays
  have hstays : (∀ u ∈ tasks, u.grip.stage = .idle) → (∀ u ∈ s.tasks, u.grip.stage = .idle) ∧
      (App.answer (.task i) w ev.call s.app).2.imports = s.app.imports := by
    intro hidle
    have hclear : ev.call ≠ .clearTickets := fun hc => by
      rw [hc] at hv
      cases hv
    have hself := hidle (t.went s.app.imports ev task)
      (htasks ▸ List.mem_of_getElem? (List.getElem?_set_self (lt_of_running ht)))
    rw [hnext] at hself
    obtain ⟨hidle', himports⟩ := Grip.idle_of_next (m := .task i) (w := w) (a := s.app) hself hclear
    refine ⟨fun u hu => ?_, himports⟩
    obtain ⟨j, hj⟩ := List.mem_iff_getElem?.1 hu
    by_cases hij : i = j
    · subst hij
      obtain rfl := Option.some_inj.1 (ht.symm.trans hj)
      exact hidle'
    · exact hidle u (htasks ▸ List.mem_of_getElem? ((List.getElem?_set_ne hij).trans hj))
  rcases mem_tickets_answer hv with hv | ⟨ticket, hc, rfl⟩
  · obtain ⟨e, he, hissued, himports⟩ := h.issued v hv
    refine ⟨e, List.mem_append_left _ he, hissued, fun hidle => ?_⟩
    exact (himports (hstays hidle).1).trans (hstays hidle).2.symm
  · obtain ⟨c, ans⟩ := ev
    obtain rfl : c = .issue ticket := hc
    obtain rfl : ans = w.token := hans
    refine ⟨_, List.mem_concat_self, ⟨⟨t, htc post, ?_⟩, rfl⟩, fun hidle => ?_⟩
    · simpa using hgrant ticket rfl
    · exact (hstays hidle).2.symm

theorem Ticketing.issued_beside {e : Entry Proxy Act} (h : Ticketing tr s)
    (htickets : ∀ v ∈ s'.app.tickets.issued, v ∈ s.app.tickets.issued) (himports : s'.app.imports = s.app.imports)
    (htasks : ∀ t ∈ s.tasks, t ∈ s'.tasks) : ∀ v ∈ s'.app.tickets.issued, ∃ e' ∈ tr ++ [e], IssuedBy v e' ∧
      ((∀ t ∈ s'.tasks, t.grip.stage = .idle) → e'.pre.app.imports = s'.app.imports) := by
  intro v hv
  obtain ⟨e', he', hissued, heq⟩ := h.issued v (htickets v hv)
  refine ⟨e', List.mem_append_left _ he', hissued, fun hidle => ?_⟩
  rw [himports]
  exact heq fun t ht => hidle t (htasks t ht)

theorem Ticketing.step {K : Ground → Prop} (h : Ticketing tr s) (hg : Gated s) (hsound : Sound K s)
    (hstep : s.step a = some s') : Ticketing (tr ++ [⟨s, a, s'⟩]) s' where
  grants := by
    refine Proxy.tasks_of_step hstep h.grants (fun r _ _ => granting_program r) fun i w t e task app ht
      hmade hobeys => ?_
    exact (hobeys.step hmade).2.2
  issued := by
    have hspawn : ∀ {more : List Running}, ∀ t ∈ s.tasks, t ∈ s.tasks ++ more := fun t ht => List.mem_append_left _ ht
    cases Proxy.turn hstep with
    | request r => exact h.issued_beside (fun _ hv => hv) rfl hspawn
    | call running made => exact h.issued_call hg running made rfl
    | @admission id w x t t' e app session phase made =>
      obtain ⟨hallows, -, -⟩ := (hsound.admits id x t session phase).step made
      obtain ⟨-, -, rfl⟩ := App.served made
      refine h.issued_beside (fun v hv => ?_) (counters_answer (Standing.allows.tag_ne hallows)).2 fun _ ht => ht
      refine (mem_tickets_answer hv).resolve_right ?_
      rintro ⟨ticket, hc, -⟩
      rw [hc] at hallows
      exact hallows.elim
    | opens | report | close => exact h.issued_beside (fun _ hv => hv) rfl hspawn
    | _ => exact h.issued_beside (fun _ hv => hv) rfl fun _ ht => ht
  admits id x' t' hx' hphase' := by
    rcases Proxy.admitting_of_step hstep hx' hphase' with
      hx | ⟨x, targetId, token, rfl, -, rfl⟩ | ⟨w, x, t, e, app, rfl, hx, hphase, hmade, rfl⟩
    · obtain ⟨e, he, hasked⟩ := h.admits id x' t' hx hphase'
      exact ⟨e, List.mem_append_left _ he, hasked⟩
    · obtain rfl := Phase.admitting.inj hphase'
      exact ⟨_, List.mem_concat_self, targetId, token, rfl, following_admit ..⟩
    · obtain ⟨e', he', targetId, token, hasked, hobeys⟩ := h.admits id x t hx hphase
      exact ⟨e', List.mem_append_left _ he', targetId, token, hasked, (hobeys.step hmade).2.2⟩

end Steps

variable {b : Boot} {trace : ProxyTrace} {s : Proxy}

theorem ticketing_of_run (run : ProxyRun b trace s) : Ticketing trace s := by
  refine run.history ?_ fun tr s a s' hrun ih hstep => ?_
  · obtain ⟨store, vault, happ⟩ := b.app_eq
    refine ⟨by simp [Boot.start], ?_, by simp [Boot.start]⟩
    rw [Boot.start, happ]
    simp
  · obtain ⟨hgated, hsound⟩ := gated_of_run hrun
    exact ih.step hgated hsound hstep

/-! ## Admissions and their tickets -/

/-- A step completes an admission: the connection, as it was, is let through to a server. -/
structure Admits (e : Entry Proxy Act) (id : Nat) (x : Session) (target : Server) : Prop where
  call : ∃ ev, sessionCall e = some (id, x, ev)
  through : ∃ x', e.post.sessions[id]? = some x' ∧ x'.phase = .admitted target

/-- A step redeems a token that the table has. -/
structure Finds (e : Entry Proxy Act) (token : Text) : Prop where
  call : ∃ id x answer, sessionCall e = some (id, x, ⟨.redeem token, answer⟩)
  held : ∃ i ∈ e.pre.app.tickets.issued, i.token = token

/-- What a completed admission was made on: the client's request, the step that issued its token, the
redemption, and the check of the assignment. -/
structure OnTicket (trace : ProxyTrace) (e : Entry Proxy Act) (id : Nat) (x : Session) (target : Server)
    (asked issued redeemed checked : Entry Proxy Act) (targetId token : Text) : Prop where
  named : asked.label = .ask id targetId token
  destination : parseI64 targetId = some target.id
  granted : ∃ t, taskCall issued = some (t, ⟨.issue ⟨x.user.id, target.id⟩, token⟩) ∧
    Granted t.request t.task.made ⟨x.user.id, target.id⟩
  redeems : ∃ x₀, sessionCall redeemed = some (id, x₀, ⟨.redeem token, some ⟨x.user.id, target.id⟩⟩)
  finds : Finds redeemed token
  fresh : redeemed.label.world.instant < issued.label.world.instant + ticketTtl
  checks : ∃ x₀, sessionCall checked = some (id, x₀, ⟨.isAssigned x.user.id target.id, true⟩)
  assigned : checked.pre.app.store.isAssigned x.user.id target.id = true
  database : ∀ e' ∈ [issued, redeemed, checked], e'.pre.app.imports = e.pre.app.imports
  order : [issued, redeemed, e].Sublist trace ∧ [asked, e].Sublist trace ∧ [checked, e].Sublist trace

variable {e : Entry Proxy Act} {id : Nat} {x : Session}

theorem answer_of_sessionCall {ev : Event Api} (h : sessionCall e = some (id, x, ev)) :
    ev.answer = (App.answer (.session id) e.label.world ev.call e.pre.app).1 := by
  obtain ⟨w, t, t', app, hlabel, -, -, hmade⟩ := sessionCall_eq_some h
  rw [hlabel]
  exact (App.served hmade).2.1

variable {token : Text} {target : Server} {s' : Proxy} {a : Act}

theorem redeemed_of_run (run : ProxyRun b trace s) {ticket : Ticket} (he : e ∈ trace)
    (hcall : sessionCall e = some (id, x, ⟨.redeem token, some ticket⟩)) :
    ∃ e₁, [e₁, e].Sublist trace ∧ (∃ t, taskCall e₁ = some (t, ⟨.issue ticket, token⟩) ∧
      Granted t.request t.task.made ticket) ∧ Finds e token ∧
      e.label.world.instant < e₁.label.world.instant + ticketTtl ∧ e₁.pre.app.imports = e.pre.app.imports := by
  obtain ⟨tr₁, tr₂, rfl, hbefore⟩ := run.exists_before he
  obtain ⟨hgated, -⟩ := gated_of_run hbefore
  obtain ⟨i, hi, rfl, rfl, hfresh⟩ := Tickets.redeem_eq_some (answer_of_sessionCall hcall).symm
  obtain ⟨e₁, he₁, hissued, himports⟩ := (ticketing_of_run hbefore).issued i hi
  refine ⟨e₁, (List.singleton_sublist.2 he₁).append (List.singleton_sublist.2 List.mem_cons_self), hissued.call,
    ⟨⟨id, x, _, hcall⟩, i, hi, rfl⟩, hissued.minted ▸ hfresh, himports fun t ht => ?_⟩
  -- who redeems has the gate, so nobody is in a swap
  obtain ⟨w, u, u', app, -, hx, hphase, hmade⟩ := sessionCall_eq_some hcall
  have hsure := (hgated.admits hx hphase hmade).1.trust rfl
  have hheld : (e.pre.grip (.session id)).held ≠ none := by
    rw [Proxy.grip_session hx]
    refine (hgated.sessions id x u hx hphase).2.trust ?_
    cases htrust : (x.grip id).trust with
    | now g => rfl
    | exempt => exact absurd htrust (Session.trust_ne_exempt hphase)
    | _ =>
      rw [htrust] at hsure
      exact hsure.elim
  by_contra hstage
  obtain ⟨j, hj⟩ := List.mem_iff_getElem?.1 ht
  exact absurd (hgated.alone hj ((hgated.tasks t ht).sound.swap hstage) hheld) (by rintro ⟨⟩)

/-- A completed admission gave the gate back last: what it has made is what it found, and the
database in place is the one of all its reads. -/
theorem Admits.found (run : ProxyRun b trace s) (he : e ∈ trace) (h : Admits e id x target) :
    ∃ t, e.pre.sessions[id]? = some x ∧ x.phase = .admitting t ∧
      (∀ n ∈ x.seen, n = e.pre.app.imports) ∧ ∀ user targetId token,
        t.Obeys Following [] (LetThrough user targetId token) → Found user targetId token target t.made := by
  obtain ⟨_, _, _, hbefore⟩ := run.exists_before he
  obtain ⟨ev, hcall⟩ := h.call
  obtain ⟨x', hx', hthrough⟩ := h.through
  obtain ⟨w, t, t', app, hlabel, hx, hphase, hmade⟩ := sessionCall_eq_some hcall
  -- the step is the last of the admission
  have hret : t'.prog = .ret (.ok target) := by
    have hstep := run.step_of_mem he
    rw [hlabel, Proxy.step, hx] at hstep
    simp only [Option.bind_eq_bind, Option.bind_some, hphase, hmade, Option.some_inj] at hstep
    rw [← hstep] at hx'
    rcases Proxy.sessions_setPhase hx' with ⟨-, rfl⟩ | ⟨hid, -⟩
    · have hphase' : Phase.ofTask t' = .admitted target := hthrough
      unfold Phase.ofTask at hphase'
      split at hphase' <;> cases hphase'
      assumption
    · exact absurd rfl hid
  have hmade' := (Task.step_eq_some hmade).2
  have hlast : ∀ user targetId token, t.Obeys Following [] (LetThrough user targetId token) →
      ev = ⟨.release, ()⟩ ∧ Found user targetId token target t.made := by
    intro user targetId token hobeys
    have hthrough := (hobeys.step hmade).2.2.result (a := .ok target) (by rw [hret]; rfl)
    obtain ⟨before, heq, hfound⟩ := hthrough target rfl
    simp only [Protocol.after_logging, List.nil_append, hmade'] at heq
    obtain ⟨rfl, hev⟩ := List.append_inj' heq rfl
    exact ⟨List.singleton_inj.1 hev, hfound⟩
  refine ⟨t, hx, hphase, ?_, fun user targetId token hobeys => (hlast user targetId token hobeys).2⟩
  obtain ⟨_, _, targetId, token, -, hobeys⟩ := (ticketing_of_run hbefore).admits id x t hx hphase
  obtain rfl := (hlast x.user targetId token hobeys).1
  obtain ⟨hgated, -⟩ := gated_of_run hbefore
  obtain ⟨hallows, hafter, hobeys⟩ := hgated.admits hx hphase hmade
  obtain ⟨g, htrust⟩ := (hobeys.result (a := .ok target) (by rw [hret]; rfl)).2.2 target rfl
  rw [hafter] at htrust
  have hlinks := (fenced_of_run hbefore).sessions id x hx |>.admitting t hphase
  have htrust : (x.grip id).trust.release = .before (.generation g) := htrust
  cases hq : (x.grip id).trust with
  | now o =>
    rw [hq] at hlinks
    exact hlinks.1
  | before o => exact absurd hq ((hgated.sessions id x t hx hphase).2.present hallows.hold o)
  | _ =>
    rw [hq] at htrust
    cases htrust

theorem onTicket_of_admits (run : ProxyRun b trace s) (he : e ∈ trace) (h : Admits e id x target) :
    ∃ asked issued redeemed checked targetId token,
      OnTicket trace e id x target asked issued redeemed checked targetId token := by
  obtain ⟨t, hx, hphase, hseen, hfollow⟩ := h.found run he
  obtain ⟨tr₁, tr₂, rfl, hbefore⟩ := run.exists_before he
  obtain ⟨asked, hasked, targetId, token, hlabel, hobeys⟩ := (ticketing_of_run hbefore).admits id x t hx hphase
  have hfound := hfollow _ _ _ hobeys
  have hcalls := admissions_of_run hbefore id x t hx hphase
  have hbeforeE : ∀ {e'}, e' ∈ tr₁ → [e', e].Sublist (tr₁ ++ e :: tr₂) := fun he' =>
    (List.singleton_sublist.2 he').append (List.singleton_sublist.2 List.mem_cons_self)
  obtain ⟨redeemed, hredeemed, ⟨x₂, hcall₂, -⟩, hseen₂⟩ := hcalls _ hfound.redeemed
  obtain ⟨issued, horder, hgranted, hfinds, hfresh, hdatabase⟩ := redeemed_of_run hbefore hredeemed hcall₂
  obtain ⟨n, hn, hserver⟩ := hfound.named
  obtain ⟨named, -, ⟨x₃, hcall₃, -⟩, -⟩ := hcalls _ hserver
  obtain ⟨checked, hchecked, ⟨x₄, hcall₄, -⟩, hseen₄⟩ := hcalls _ hfound.assigned
  have hid : target.id = n := (Table.byId_eq_some (answer_of_sessionCall hcall₃).symm).2
  refine ⟨asked, issued, redeemed, checked, targetId, token, {
    named := hlabel
    destination := hid ▸ hn
    granted := hgranted
    redeems := ⟨x₂, hcall₂⟩
    finds := hfinds
    fresh := hfresh
    checks := ⟨x₄, hcall₄⟩
    assigned := (answer_of_sessionCall hcall₄).symm
    database := ?_
    order := ⟨?_, hbeforeE hasked, hbeforeE hchecked⟩ }⟩
  · have hdatabase₂ := hseen _ (hseen₂ rfl)
    simp only [List.mem_cons, List.not_mem_nil, or_false]
    rintro e' (rfl | rfl | rfl)
    · exact hdatabase.trans hdatabase₂
    · exact hdatabase₂
    · exact hseen _ (hseen₄ rfl)
  · exact horder.append (List.singleton_sublist.2 List.mem_cons_self)

/-! ## Single use -/

def Issues (e : Entry Proxy Act) (token : Text) : Prop := ∃ t ticket, taskCall e = some (t, ⟨.issue ticket, token⟩)

def DistinctTokens (trace : ProxyTrace) : Prop := trace.Pairwise fun e e' => ∀ token, Issues e token → ¬ Issues e' token

def AdmittedOn (trace : ProxyTrace) (e : Entry Proxy Act) (token : Text) : Prop :=
  ∃ id x target, Admits e id x target ∧ ∃ asked issued redeemed checked targetId,
    OnTicket trace e id x target asked issued redeemed checked targetId token

/-- A token that has been found was issued, and is not in the table any more; no two steps have found
it. -/
structure Spent (trace : ProxyTrace) (s : Proxy) : Prop where
  gone : ∀ e ∈ trace, ∀ token, Finds e token →
    (∃ e₁ ∈ trace, Issues e₁ token) ∧ ∀ i ∈ s.app.tickets.issued, i.token ≠ token
  once : trace.Pairwise fun e e' => ∀ token, Finds e token → ¬ Finds e' token

theorem mem_tickets_of_step {i : Issued} (run : ProxyRun b trace s) (hstep : s.step a = some s')
    (hi : i ∈ s'.app.tickets.issued) : i ∈ s.app.tickets.issued ∨ Issues ⟨s, a, s'⟩ i.token := by
  obtain ⟨-, hsound⟩ := gated_of_run run
  cases Proxy.turn hstep with
  | @call j w t e task app running made =>
    obtain ⟨-, hans, rfl⟩ := App.served made
    refine (mem_tickets_answer hi).imp_right ?_
    rintro ⟨ticket, hc, rfl⟩
    obtain ⟨c, ans⟩ := e
    obtain rfl : c = .issue ticket := hc
    obtain rfl : ans = w.token := hans
    exact ⟨t, ticket, by simp [taskCall, running, made]⟩
  | @admission id w x t t' e app session phase made =>
    obtain ⟨hallows, -, -⟩ := (hsound.admits id x t session phase).step made
    obtain ⟨-, -, rfl⟩ := App.served made
    refine .inl ((mem_tickets_answer hi).resolve_right ?_)
    rintro ⟨ticket, hc, -⟩
    rw [hc] at hallows
    exact hallows.elim
  | _ => exact .inl hi

theorem Finds.gone (hstep : s.step a = some s') (h : Finds ⟨s, a, s'⟩ token) :
    ∀ i ∈ s'.app.tickets.issued, i.token ≠ token := by
  obtain ⟨id, x, answer, hcall⟩ := h.call
  obtain ⟨w, t, t', app, hlabel, hx, hphase, hmade⟩ := sessionCall_eq_some hcall
  obtain rfl : a = .admission id w := hlabel
  have hx : s.sessions[id]? = some x := hx
  have hmade : t.step (App.serve (.session id) w) s.app = _ := hmade
  rw [Proxy.step, hx] at hstep
  simp only [Option.bind_eq_bind, Option.bind_some, hphase, hmade, Option.some_inj] at hstep
  obtain ⟨-, -, rfl⟩ := App.served hmade
  intro i hi
  rw [← hstep] at hi
  exact (Tickets.mem_redeem hi).2

theorem spent_of_run (run : ProxyRun b trace s) (distinct : DistinctTokens trace) : Spent trace s := by
  refine run.history (fun _ => ⟨by simp, .nil⟩) ?_ distinct
  intro tr s a s' hrun ih hstep hdistinct
  obtain ⟨hdistinct, -, hlast⟩ := List.pairwise_append.1 hdistinct
  have ih := ih hdistinct
  have hlast : ∀ e ∈ tr, ∀ token, Issues e token → ¬ Issues ⟨s, a, s'⟩ token :=
    fun e he => hlast e he _ (List.mem_singleton_self _)
  refine ⟨fun e he token hfinds => ?_, List.pairwise_append.2 ⟨ih.once, List.pairwise_singleton _ _, ?_⟩⟩
  · rcases mem_snoc.1 he with he | rfl
    · obtain ⟨⟨e₁, he₁, hissues⟩, hgone⟩ := ih.gone e he token hfinds
      refine ⟨⟨e₁, List.mem_append_left _ he₁, hissues⟩, fun i hi => ?_⟩
      rcases mem_tickets_of_step hrun hstep hi with hi | hi
      · exact hgone i hi
      · rintro rfl
        exact hlast e₁ he₁ _ hissues hi
    · obtain ⟨i, hi, rfl⟩ := hfinds.held
      obtain ⟨e₁, he₁, ⟨⟨t, htc, -⟩, -⟩, -⟩ := (ticketing_of_run hrun).issued i hi
      exact ⟨⟨e₁, List.mem_append_left _ he₁, t, _, htc⟩, hfinds.gone hstep⟩
  · intro e he e' he' token hfinds hfinds'
    obtain rfl := List.mem_singleton.1 he'
    obtain ⟨i, hi, htoken⟩ := hfinds'.held
    exact (ih.gone e he token hfinds).2 i hi htoken

theorem admits_once (run : ProxyRun b trace s) :
    trace.Pairwise fun e e' => ∀ id x target x' target', Admits e id x target → ¬ Admits e' id x' target' := by
  suffices h : (∀ e ∈ trace, ∀ id x target, Admits e id x target → ∃ y, s.sessions[id]? = some y ∧
    y.phase.past = true) ∧
      trace.Pairwise fun e e' => ∀ id x target x' target', Admits e id x target → ¬ Admits e' id x' target' from h.2
  refine run.history ⟨by simp, .nil⟩ ?_
  intro tr s a s' hrun ih hstep
  refine ⟨fun e he id x target hadmits => ?_, List.pairwise_append.2 ⟨ih.2, List.pairwise_singleton _ _, ?_⟩⟩
  · rcases mem_snoc.1 he with he | rfl
    · obtain ⟨y, hy, hpast⟩ := ih.1 e he id x target hadmits
      obtain ⟨y', hy', -, -, hpast'⟩ := Proxy.session_stays hstep hy
      exact ⟨y', hy', hpast' hpast⟩
    · obtain ⟨y, hy, hphase⟩ := hadmits.through
      exact ⟨y, hy, by rw [hphase]; rfl⟩
  · intro e he e' he' id x target x' target' hadmits hadmits'
    obtain rfl := List.mem_singleton.1 he'
    obtain ⟨y, hy, hpast⟩ := ih.1 e he id x target hadmits
    obtain ⟨ev, hcall⟩ := hadmits'.call
    obtain ⟨w, t, t', app, -, hx, hphase, -⟩ := sessionCall_eq_some hcall
    obtain rfl := Option.some_inj.1 (hy.symm.trans hx)
    rw [hphase] at hpast
    cases hpast

/-- Admission is bound to a fresh, single-use ticket. A completed admission was made on a token that a
connect request of the same user had been issued, in the same database and less than a minute before,
once it had found the server assigned; the client's destination is that server, and it was found
assigned again. If no token is issued twice, none is found twice, and none admits twice. -/
theorem admission_on_ticket (run : ProxyRun b trace s) :
    (∀ e ∈ trace, ∀ id x target, Admits e id x target → ∃ asked issued redeemed checked targetId token,
      OnTicket trace e id x target asked issued redeemed checked targetId token) ∧
    (DistinctTokens trace → (trace.Pairwise fun e e' => ∀ token, Finds e token → ¬ Finds e' token) ∧
      trace.Pairwise fun e e' => ∀ token, AdmittedOn trace e token → ¬ AdmittedOn trace e' token) := by
  refine ⟨fun e he id x target h => onTicket_of_admits run he h, fun distinct => ?_⟩
  have honce := (spent_of_run run distinct).once
  refine ⟨honce, (admits_once run).imp_of_mem fun {e e'} he he' hne token hon hon' => ?_⟩
  obtain ⟨id, x, target, hadmits, _, _, redeemed, _, _, h⟩ := hon
  obtain ⟨id', x', target', hadmits', _, _, redeemed', _, _, h'⟩ := hon'
  have hmem : redeemed ∈ trace := h.order.1.subset (by simp)
  have hmem' : redeemed' ∈ trace := h'.order.1.subset (by simp)
  by_cases heq : redeemed = redeemed'
  · -- the same redemption is of one connection, which is admitted once
    subst heq
    obtain ⟨x₀, hcall⟩ := h.redeems
    obtain ⟨x₀', hcall'⟩ := h'.redeems
    obtain rfl : id = id' := congrArg Prod.fst (Option.some_inj.1 (hcall.symm.trans hcall'))
    exact hne id x target x' target' hadmits hadmits'
  · have hsymm : Std.Symm fun e e' : Entry Proxy Act => ∀ token, Finds e token → ¬ Finds e' token :=
      ⟨fun _ _ hR token h₁ h₂ => hR token h₂ h₁⟩
    exact honce.forall hmem hmem' heq token h.finds h'.finds

/-- The connection of the sample script is admitted on a ticket. -/
theorem admission_on_ticket_admitOne : ∃ s, ProxyRun { store := oneServer }
    (scriptedProxy { store := oneServer } (admitOne 0)) s ∧
    ∃ e ∈ scriptedProxy { store := oneServer } (admitOne 0), ∃ id x target, Admits e id x target ∧
      ∃ asked issued redeemed checked targetId token,
        OnTicket (scriptedProxy { store := oneServer } (admitOne 0)) e id x target asked issued redeemed
          checked targetId
          token := by
  obtain ⟨s, run, -⟩ := scriptedProxy_run { store := oneServer } (admitOne 0) (fun _ => true) (by decide +kernel)
  have hadmits : (scriptedProxy { store := oneServer } (admitOne 0)).any (fun e => (sessionCall e).any fun c =>
      e.post.sessions[c.1]?.any (·.phase.isAdmitted)) = true := by decide +kernel
  obtain ⟨e, he, hadmits⟩ := List.any_eq_true.1 hadmits
  obtain ⟨⟨id, x, ev⟩, hcall, hadmits⟩ := (Option.any_eq_true ..).1 hadmits
  obtain ⟨x', hx', hadmits⟩ := (Option.any_eq_true ..).1 hadmits
  unfold Phase.isAdmitted at hadmits
  split at hadmits
  · rename_i target hphase
    have h : Admits e id x target := ⟨⟨ev, hcall⟩, x', hx', hphase⟩
    exact ⟨s, run, e, he, id, x, target, h, (admission_on_ticket run).1 e he id x target h⟩
  · exact Bool.noConfusion hadmits

end WebAccess
