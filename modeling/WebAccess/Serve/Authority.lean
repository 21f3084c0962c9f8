/-
Who may do what. A request changes the management plane only once it has found the sign-in it came with to be an
administrator's, and hands out a saved password only to the user it was sealed for. What a request has found is told
by the answers to its calls, so both are protocols that forget nothing: once a program has asked, it may go on as it
likes.
-/
import WebAccess.Serve.Loaded

namespace WebAccess

open Codec Wire Process Transition

/-- The hash of the token a request came with; a sign-in comes with none. -/
def Route.tokenHash : Route → Bytes
  | wsUpgrade h | logout h | unfreeze h | myNotices h _ | connect h _ | forgetCredential h _
    | removeUser h _ | clearSid h _
  | removeServer h _ | removeGroup h _ | orderGroups h _ | importServers h _ | addGroup h _
    | putSettings h _ | unlock h _
  | resetCredentialStore h _ | cancelImport h _ | uploadImport h _ | saveCredential h _ _ | updateUser h _ _
  | setUserServers h _ _ | copyFrom h _ _ | addServer h _ _ | renameGroup h _ _ | setRecovery h _ _ | addUser h _ _
  | setDirectoryPassword h _ _ | updateServer h _ _ _ | exportDatabase h _ _ _ _ | confirmImport h _ _ _ _ _ _ => h
  | page .. | login .. | ssoSignIn .. => []

/-- The kinds of calls that are the management plane's. Rows of users are written by sign-ins too, and a sign-out ends
its own session. -/
def Route.manages : Route → Tag → Bool
  | _, .edit | _, .secret | _, .vault | _, .flag | _, .swap => true
  | login .., .user | ssoSignIn .., .user | logout _, .revoke => false
  | _, .user | _, .revoke => true
  | _, _ => false

namespace Request

def overHttp : Request → Bool
  | http .. => true
  | _ => false

def tokenHash : Request → Bytes
  | http r _ => r.tokenHash
  | _ => []

/-- What does not come over HTTP has no sign-in. -/
def manages : Request → Tag → Bool
  | http r _, tag => r.manages tag
  | _, _ => false

end Request

/-! ## Through the middleware -/

/-- The middleware makes no call such a protocol is about, and keeps what is known of the answer. -/
theorem obeys_gateRequests {α : Type} {allows : List (Event Api) → Call → Prop}
    {post : List (Event Api) → ApiResult α → Prop} {p : Prog Api (ApiResult α)}
    (hallows : ∀ made c, c.tag = .gate ∨ c.tag = .look → allows made c)
    (hpost : ∀ made e x, post made x → post (made ++ [e]) x) (herror : ∀ made e, post made (.error e))
    (hp : ∀ made, p.Obeys (.logging allows) post made) (method : Method) (path : Text) (sent : Option Text) :
    (gateRequests method path sent p).Obeys (.logging allows) post [] := by
  -- one more call after the answer is known
  have hafter : ∀ {c : Call} {made x}, c.tag = .gate ∨ c.tag = .look → post made x →
      (ask c >>= fun _ => (pure x : Prog Api _)).Obeys (.logging allows) post made := fun hc hx =>
    obeys_call (P := .logging allows) (hallows _ _ hc) fun _ => hpost _ _ _ hx
  have hstamped : ∀ (q : Prog Api (ApiResult α)) made, q.Obeys (.logging allows) post made →
      (stamped q).Obeys (.logging allows) post made := fun q made hq =>
    obeys_bind.2 (hq.mono fun _ _ hx => hafter (.inr rfl) hx)
  unfold gateRequests
  split
  · exact hstamped _ _ (hp _)
  refine obeys_call (P := .logging allows) (hallows _ _ (.inl rfl)) fun _ => obeys_bind.2 ?_
  refine Prog.Obeys.mono (fun _ _ hx => hafter (.inl rfl) hx) (hstamped _ _ ?_)
  unfold checkInstance
  split
  · refine obeys_call (P := .logging allows) (hallows _ _ (.inr rfl)) fun current => ?_
    simp only []
    split
    · exact herror _ _
    · exact hp _
  · exact hp _

/-! ## The management plane -/

/-- The token was found to be of a sign-in, and its user to be an administrator. -/
def Administrator (tokenHash : Bytes) (made : List (Event Api)) : Prop :=
  ∃ u, ⟨.sessionUser tokenHash, some u⟩ ∈ made ∧ ⟨.isAdmin u, true⟩ ∈ made

/-- Calls of the management plane are made by who was found to be an administrator. -/
abbrev Administered (r : Route) : Protocol Api :=
  .logging fun made c => r.manages c.tag = true → Administrator r.tokenHash made

def Asked {α : Type} (r : Route) (made : List (Event Api)) (x : ApiResult α) : Prop :=
  x.isOk = true → Administrator r.tokenHash made

section Administered

variable {α : Type} {r : Route} {made : List (Event Api)}

theorem Administrator.snoc {tokenHash : Bytes} (h : Administrator tokenHash made) (e : Event Api) :
    Administrator tokenHash (made ++ [e]) := by
  obtain ⟨u, hu, hadmin⟩ := h
  exact ⟨u, List.mem_append_left _ hu, List.mem_append_left _ hadmin⟩

theorem administered_of_found (h : Administrator r.tokenHash made) (p : Prog Api α) :
    p.Obeys (Administered r) (fun made _ => Administrator r.tokenHash made) made := by
  refine obeys_logging (K := Administrator r.tokenHash) (fun _ e h => h.snoc e) ?_ p h
  exact fun _ _ h _ => h

theorem administered_ask {c : Call} {f : c.Answer → Prog Api α} {post : List (Event Api) → α → Prop}
    (hc : r.manages c.tag = false) (h : ∀ a, (f a).Obeys (Administered r) post (made ++ [⟨c, a⟩])) :
    (ask c >>= f).Obeys (Administered r) post made :=
  obeys_call (fun hmanages => absurd (hc.symm.trans hmanages) (by simp)) h

theorem administered_of_footprint (h : (Tag.look :: r.footprint).all (fun tag => !r.manages tag) = true) :
    r.handler.Obeys (Administered r) (fun _ _ => True) made := by
  refine obeys_of_makes (P := Administered r) (I := fun _ => True) (fun _ c _ hc =>
    ⟨fun hmanages => ?_, fun _ => trivial⟩)
    r.within_handler trivial
  have hnot := List.all_eq_true.1 h c.tag (List.contains_iff_mem.1 hc)
  rw [hmanages] at hnot
  cases hnot

theorem administered_then {β : Type} {p : Prog Api (ApiResult β)} {f : ApiResult β → Prog Api α}
    (hp : p.Obeys (Administered r) (Asked r) made)
    (herror : ∀ made e, (f (.error e)).Obeys (Administered r) (fun _ _ => True) made) :
    (p >>= f).Obeys (Administered r) (fun _ _ => True) made := by
  refine obeys_bind.2 (hp.mono fun made x hx => ?_)
  cases x with
  | error e => exact herror made e
  | ok a => exact (administered_of_found (hx rfl) _).mono fun _ _ _ => trivial

variable (made)

theorem asked_withAdmin {handler : User → Prog Api (ApiResult α)} :
    (withAdmin r.tokenHash handler).Obeys (Administered r) (Asked r) made := by
  refine obeys_bind.2 (administered_ask rfl fun found => ?_)
  cases found with
  | none => exact fun h => Bool.noConfusion h
  | some u =>
    refine administered_ask rfl fun isAdmin => ?_
    cases isAdmin with
    | false => exact fun h => Bool.noConfusion h
    | true =>
      have hasked : Administrator r.tokenHash (made ++ [⟨.sessionUser r.tokenHash, some u⟩] ++ [⟨.isAdmin u, true⟩]) :=
        ⟨u, by simp, by simp⟩
      refine Prog.Obeys.mono ?_ (administered_of_found hasked (handler u))
      exact fun _ _ h _ => h

theorem asked_holding {h : Hold} {p : Prog Api (ApiResult α)}
    (hp : ∀ made, p.Obeys (Administered r) (Asked r) made) : (holding h p).Obeys (Administered r) (Asked r) made := by
  refine administered_ask rfl fun _ => obeys_bind.2 ((hp _).mono fun _ _ hx => administered_ask rfl fun _ hok => ?_)
  exact (hx hok).snoc _

theorem asked_ite {wanted : Bool} {e : ApiError} {handler : User → Prog Api (ApiResult α)} :
    (if wanted then withAdmin r.tokenHash handler else pure (.error e)).Obeys (Administered r) (Asked r) made := by
  cases wanted with
  | false => exact fun h => Bool.noConfusion h
  | true => exact asked_withAdmin made

theorem administered_withAdminToken {p : Prog Api (ApiResult α)}
    (hp : ∀ made, p.Obeys (Administered r) (fun _ _ => True) made) :
    (withAdminToken r.tokenHash p).Obeys (Administered r) (fun _ _ => True) made := by
  refine administered_ask rfl fun isAdmin => ?_
  cases isAdmin with
  | false => trivial
  | true => exact hp _

end Administered

theorem administered_handler (r : Route) (made : List (Event Api)) :
    r.handler.Obeys (Administered r) (fun _ _ => True) made := by
  -- what is made of the answer is no call
  have hplain : ∀ {α : Type} {p : Prog Api α} {f : α → ApiResult Reply},
      p.Obeys (Administered r) (fun _ _ => True) made →
      (p >>= fun a => pure (f a)).Obeys (Administered r) (fun _ _ => True) made :=
    fun hp => obeys_bind.2 (hp.mono fun _ _ _ => trivial)
  cases r with
  | page | wsUpgrade | myNotices | connect | saveCredential | forgetCredential | logout | login
    | ssoSignIn | cancelImport
  | uploadImport => exact administered_of_footprint rfl
  | addUser =>
    exact hplain (administered_withAdminToken _ fun made =>
      administered_then (asked_holding made fun made => asked_withAdmin made) fun _ _ => trivial)
  | setDirectoryPassword =>
    refine hplain (administered_withAdminToken _ fun made => ?_)
    split
    · trivial
    · exact administered_then (asked_holding made fun made => asked_withAdmin made) fun _ _ => trivial
  | exportDatabase _ _ freeze =>
    refine hplain (administered_withAdminToken _ fun made => administered_ask rfl fun wrapped => ?_)
    split
    · trivial
    refine administered_ask rfl fun _ => administered_then ?_ fun _ _ => administered_ask rfl fun _ => trivial
    cases freeze <;> exact asked_holding _ fun made => asked_ite made
  | confirmImport =>
    refine hplain (administered_withAdminToken _ fun made => ?_)
    exact (asked_holding made fun made => asked_ite made).mono fun _ _ _ => trivial
  | _ => exact administered_then (asked_withAdmin made) fun _ _ => trivial

theorem administered_program (q : Request) : q.program.Obeys
    (.logging fun made (c : Call) => q.manages c.tag = true → Administrator q.tokenHash made) (fun _ _ => True) [] := by
  cases q with
  | http r sent =>
    refine obeys_gateRequests (fun _ c hc hmanages => ?_) (fun _ _ _ _ => trivial) (fun _ _ => trivial)
      (administered_handler r) ..
    rcases hc with hc | hc <;> rw [hc] at hmanages <;> cases r <;> cases hmanages
  | _ => exact obeys_of_allows (fun _ _ h => Bool.noConfusion h) _ _

/-! ## Saved passwords -/

/-- A password that is handed out was saved under the row of the sign-in's user, for a server that is assigned to them,
and was sealed for the SID that row has and for that server. -/
def HandsOwn (tokenHash : Bytes) (made : List (Event Api)) (x : ApiResult Reply) : Prop :=
  ∀ c name domain password, x = .ok (.connected c) → c.credential = some (name, domain, password) →
    ∃ u sid key, u.sid = some sid ∧ ⟨.sessionUser tokenHash, some u⟩ ∈ made ∧ ⟨.isAssigned u.id c.server, true⟩ ∈ made ∧
      ⟨.credentialGet u.id c.server, some ⟨name, domain, ⟨key, Vault.credentialAad sid c.server, password⟩⟩⟩ ∈ made

section Hands

variable {tokenHash : Bytes} {made : List (Event Api)}

theorem HandsOwn.snoc {x : ApiResult Reply} (h : HandsOwn tokenHash made x) (e : Event Api) :
    HandsOwn tokenHash (made ++ [e]) x := by
  intro c name domain password hx hc
  obtain ⟨u, sid, key, hsid, huser, hassigned, hstored⟩ := h c name domain password hx hc
  exact ⟨u, sid, key, hsid, List.mem_append_left _ huser, List.mem_append_left _ hassigned,
    List.mem_append_left _ hstored⟩

theorem HandsOwn.of_error (made : List (Event Api)) (e : ApiError) : HandsOwn tokenHash made (.error e) := by
  rintro c name domain password ⟨⟩

theorem hands_connect (serverId : Int) (made : List (Event Api)) :
    (Route.connect tokenHash serverId).handler.Obeys Following (HandsOwn tokenHash) made := by
  refine obeys_bind.2 (obeys_bind.2 (obeys_call trivial fun found => ?_))
  cases found with
  | none => exact .of_error _ _
  | some u =>
  simp only []
  unfold resolve
  split
  · exact .of_error _ _
  refine obeys_bind.2 (obeys_call trivial fun found => ?_)
  cases found with
  | none => exact .of_error _ _
  | some v =>
  refine obeys_call trivial fun assigned => ?_
  cases assigned with
  | false => exact .of_error _ _
  | true =>
  refine obeys_call trivial fun ticket => obeys_bind.2 (obeys_call trivial fun stored => ?_)
  -- without a credential there is nothing to say
  have hnone : ∀ made, HandsOwn tokenHash made (.ok (.connected ⟨ticket, v.id, none⟩)) := by
    rintro made c name domain password ⟨⟩ ⟨⟩
  split
  · rename_i stored sid hsid
    refine obeys_call trivial fun unlocked => ?_
    cases unlocked with
    | none => exact hnone _
    | some _ =>
      refine obeys_call trivial fun key => ?_
      cases key with
      | none => exact hnone _
      | some key =>
        rintro c name domain password ⟨⟩ hc
        obtain ⟨plain, hplain, heq⟩ := Option.map_eq_some_iff.1 hc
        cases heq
        refine ⟨u, sid, key, hsid, by simp, by simp, ?_⟩
        rw [← Sealed.openWith_eq_some.1 hplain]
        simp
  · exact hnone _

theorem hands_handler (r : Route) (made : List (Event Api)) :
    r.handler.Obeys Following (HandsOwn r.tokenHash) made := by
  -- no other handler answers with a connection
  have hother : ∀ {α : Type} {p : Prog Api α} {f : α → ApiResult Reply}, (∀ a c, f a ≠ .ok (.connected c)) →
      (p >>= fun a => pure (f a)).Obeys Following (HandsOwn r.tokenHash) made := fun hf =>
    obeys_bind.2 ((obeys_of_allows (P := Following) (fun _ _ => trivial) _ _).mono
      fun _ a _ c _ _ _ hx _ => absurd hx (hf a c))
  cases r with
  | connect => exact hands_connect _ made
  | page => exact hother (by rintro _ c ⟨⟩)
  | _ => exact hother (by rintro (_ | _) c ⟨⟩)

end Hands

theorem hands_program (q : Request) : q.program.Obeys Following
    (fun made x => q.overHttp = true → HandsOwn q.tokenHash made x) [] := by
  cases q with
  | http r sent =>
    have h : (Request.http r sent).program.Obeys Following (HandsOwn r.tokenHash) [] :=
      obeys_gateRequests (fun _ _ _ => trivial) (fun _ e _ h => h.snoc e) .of_error (hands_handler r) ..
    exact h.mono fun _ _ h _ => h
  | _ => exact (obeys_of_allows (P := Following) (fun _ _ => trivial) _ _).mono fun _ _ _ h => Bool.noConfusion h

/-! ## Runs -/

section Runs

variable {b : Boot} {trace rest : ProxyTrace} {s : Proxy} {i : Nat} {w : World} {t : Running} {ev : Event Api}
  {e : Entry Proxy Act}

/-- Whatever a request over HTTP changes in the management plane, in any run, the token it came with was found to be of
a sign-in, and the user of that to be an administrator, at steps of that request before. -/
theorem managed_by_administrator (run : ProxyRun b (trace ++ e :: rest) s) (hlabel : e.label = .call i w)
    (hcall : taskCall e = some (t, ev)) (hmanages : t.request.manages ev.call.tag = true) :
    Administrator t.request.tokenHash t.task.made ∧ ∀ ev ∈ t.task.made, ∃ c ∈ trace, CallOf i t ev c := by
  obtain ⟨hrun, -⟩ := run.before
  obtain ⟨task, app, ht, hmade⟩ := taskCall_of_label hcall hlabel
  have hobeys := obeys_of_run hrun administered_program t (List.mem_of_getElem? ht)
  exact ⟨by simpa using (hobeys.step hmade).1 hmanages, calls_of_run hrun i t ht⟩

/-- The administrator removes the server. -/
theorem managed_by_administrator_removed : ∃ s trace e rest t, ProxyRun { store := oneServer } (trace ++ e :: rest) s ∧
    Administrator [2] t.task.made ∧ ∀ ev ∈ t.task.made, ∃ c ∈ trace, CallOf 0 t ev c := by
  obtain ⟨s, run, -⟩ := scriptedProxy_run { store := oneServer } removeFromPage (fun _ => true) (by decide +kernel)
  have hany : (scriptedProxy { store := oneServer } removeFromPage).any (fun e => e.label.calls 0 &&
      (taskCall e).any fun x => x.1.request.manages x.2.call.tag && x.1.request.tokenHash == [2]) =
        true := by decide +kernel
  obtain ⟨e, he, hany⟩ := List.any_eq_true.1 hany
  simp only [Bool.and_eq_true, Option.any_eq_true, beq_iff_eq] at hany
  obtain ⟨hlabel, ⟨t, ev⟩, hcall, hmanages, htoken⟩ := hany
  obtain ⟨trace, rest, htrace⟩ := List.append_of_mem he
  rw [htrace] at run
  obtain ⟨i, w, task, app, hlabel', -⟩ := taskCall_eq_some hcall
  obtain rfl : 0 = i := by simpa [hlabel', Act.calls] using hlabel
  exact ⟨s, trace, e, rest, t, run, htoken ▸ managed_by_administrator run hlabel' hcall hmanages⟩

/-- A password that a request over HTTP is answered with, in any run, is the one stored for the user of its sign-in
and a server assigned to them, sealed for both. -/
theorem handed_to_owner (run : ProxyRun b trace s) (ht : s.tasks[i]? = some t) (hhttp : t.request.overHttp = true)
    {x : ApiResult Reply} (hx : t.task.prog.result? = some x) :
    HandsOwn t.request.tokenHash t.task.made x ∧ ∀ ev ∈ t.task.made, ∃ c ∈ trace, CallOf i t ev c := by
  have hobeys := obeys_of_run run hands_program t (List.mem_of_getElem? ht)
  exact ⟨by simpa using hobeys.result hx hhttp, calls_of_run run i t ht⟩

def handed : ApiResult Reply → Option (Text × Option Text × Text)
  | .ok (.connected c) => c.credential
  | _ => none

/-- The user's password for the server is saved, under the key the service starts with. -/
def savedPassword : Boot where
  store := { oneServer with credentials := [⟨1, 1, ⟨['n'], none, ⟨0, Vault.credentialAad ['S'] 1, ['p']⟩⟩⟩] }

/-- It is what the user connects with. -/
theorem handed_to_owner_saved : ∃ trace s t c, ProxyRun savedPassword trace s ∧
    t.task.prog.result? = some (.ok (.connected c)) ∧ c.credential = some (['n'], none, ['p']) ∧
      HandsOwn [1] t.task.made (.ok (.connected c)) ∧ ∀ ev ∈ t.task.made, ∃ e ∈ trace, CallOf 0 t ev e := by
  obtain ⟨s, run, hs⟩ := scriptedProxy_run savedPassword
    (.request (.http (.connect [1] 1) (some ['i'])) :: calls 0 11 { token := ['t'] })
    (fun s => s.tasks[0]?.any fun t => t.request.overHttp && t.request.tokenHash == [1] &&
        t.task.prog.result?.any fun x =>
      handed x == some (['n'], none, ['p'])) (by decide +kernel)
  simp only [Option.any_eq_true, Bool.and_eq_true, beq_iff_eq] at hs
  obtain ⟨t, ht, ⟨hhttp, htoken⟩, x, hx, hc⟩ := hs
  unfold handed at hc
  split at hc
  · exact ⟨_, s, t, _, run, hx, hc, htoken ▸ handed_to_owner run ht hhttp hx⟩
  · cases hc

end Runs

end WebAccess
