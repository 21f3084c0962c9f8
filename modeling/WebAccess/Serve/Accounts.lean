/-
Whose sessions they are. A sign-in binds its row to the account's SID and then, in a step of its
own, creates a session for the row; the session is only asked to be of the same row, not of a row
that is still bound. So a session belongs to the account its row is bound to in every run in which
no row's SID is reset between the two steps, and an administrator's reset in between leaves a session
of one account on a row that the next account binds.
-/
import WebAccess.Serve.Kinds

namespace WebAccess

open Codec Wire Process Transition

/-! ## Sign-ins of directory accounts -/

/-- A step of a sign-in of the account with a SID, at which a session is added. -/
def SignsIn (e : Entry Proxy Act) (r : SessionRow) (sid : Text) : Prop :=
  r ∉ e.pre.app.store.sessions ∧ r ∈ e.post.app.store.sessions ∧
    ∃ t ev account, taskCall e = some (t, ev) ∧ t.account = some account ∧ account.sid = sid

/-- Every session of a directory user's row was created by a sign-in of the account whose SID the
row now has. -/
def SessionsBound (trace : ProxyTrace) (s : Proxy) : Prop :=
  ∀ r ∈ s.app.store.sessions, ∀ u ∈ s.app.store.users.rows, u.id = r.userId → u.isLocal = false →
    ∃ sid, u.sid = some sid ∧ ∃ e ∈ trace, SignsIn e r sid

/-- A step of a task at which `user_record_login` finds the row of an id and returns true. -/
def RecordsLogin (i : Nat) (id : Int) (e : Entry Proxy Act) : Prop :=
  (∃ w, e.label = .call i w) ∧
    ∃ t incarnation sid displayName, taskCall e = some (t, ⟨.userRecordLogin id incarnation sid displayName, true⟩)

/-- A step of a task at which a directory account's sign-in creates its session. -/
def OpensSession (i : Nat) (id : Int) (e : Entry Proxy Act) : Prop :=
  (∃ w, e.label = .call i w) ∧ ∃ t, Creates e t id ∧ t.account ≠ none

/-- No row's SID is reset between a sign-in's `user_record_login` and its `session_create`. -/
def NotResetBetween (trace : ProxyTrace) : Prop :=
  ∀ before e₀ between e after, trace = before ++ e₀ :: (between ++ e :: after) →
    ∀ i id, RecordsLogin i id e₀ → OpensSession i id e → ∀ e' ∈ between, ¬ ResetsSid id e'

theorem NotResetBetween.before {tr tr' : ProxyTrace} (h : NotResetBetween (tr ++ tr')) : NotResetBetween tr := by
  rintro before e₀ between e after rfl
  exact h before e₀ between e (after ++ tr') (by simp)

/-! ## The row of a session -/

section Rows

variable {b : Boot} {before after : ProxyTrace} {e : Entry Proxy Act} {s : Proxy} {t : Running}
    {userId : Int} {u : User}

theorem Store.userRecordLogin_bound {store : Store} {id incarnation now : Int} {sid : Text} {displayName : Option Text}
    (h : (store.userRecordLogin id incarnation sid displayName now).1 = true) :
    ∃ u ∈ (store.userRecordLogin id incarnation sid displayName now).2.users.rows, u.id = id ∧ u.sid = some sid := by
  obtain ⟨u, hu, hhit⟩ := List.countP_pos_iff.1 (of_decide_eq_true h)
  refine ⟨_, List.mem_map_of_mem hu, ?_⟩
  rw [if_pos hhit]
  simp only [Bool.and_eq_true, Bool.or_eq_true, beq_iff_eq, Option.isNone_iff_eq_none] at hhit
  refine ⟨hhit.1.1, ?_⟩
  rcases hhit.2 with hsid | hsid <;> simp [hsid]

/-- A sign-in of the directory's has bound its row, and the row is still bound when the session is created. -/
theorem bound_of_creates (run : ProxyRun b (before ++ e :: after) s)
    (hkept : ∀ e' ∈ before ++ e :: after, ¬ Replaces e') (hreset : NotResetBetween (before ++ e :: after))
    (hcreates : Creates e t userId) (hu : u ∈ e.pre.app.store.users.rows) (hid : u.id = userId)
    (hdirectory : u.isLocal = false) : ∃ account, t.account = some account ∧ u.sid = some account.sid := by
  cases haccount : t.account with
  | none =>
    obtain ⟨username, verify, row, stored, rest, hlocal⟩ := hash_session run hkept hcreates haccount
    obtain ⟨tr₁, e₀, tr₂, -, -, -, -, hthroughout⟩ := hlocal.throughout
    obtain ⟨v, hv, hvid, -, hvlocal⟩ := hthroughout e (by simp)
    obtain rfl := Table.eq_of_id_eq hv hu (hvid.trans hid.symm)
    rw [hdirectory] at hvlocal
    cases hvlocal
  | some account =>
    refine ⟨account, rfl, ?_⟩
    obtain ⟨i, w, user, hlabel, ht, hgrounded, rfl, -⟩ := grounded_of_creates run hcreates
    rcases hgrounded.account with ⟨account', haccount', hby⟩ | ⟨hnone, -⟩
    swap
    · rw [haccount] at hnone
      cases hnone
    obtain rfl := Option.some_inj.1 (haccount.symm.trans haccount')
    obtain ⟨e₀, he₀, hcall⟩ := calls_of_run run.before.1 i t ht _ hby.recorded
    obtain ⟨t₀, htask, -⟩ := hcall.task
    obtain ⟨m, w₀, hanswer, happ⟩ := app_of_taskCall (run.before.1.step_of_mem he₀) htask
    obtain ⟨v, hv, hvid, hvsid⟩ := Store.userRecordLogin_bound hanswer.symm
    have hv : v ∈ e₀.post.app.store.users.rows := by
      rw [happ]
      exact hv
    obtain ⟨tr₁, tr₂, rfl⟩ := List.append_of_mem he₀
    have hpart := run.before.1.after
    -- the sign-in's own two steps, and what is between them
    have hquiet : ∀ e' ∈ tr₂, ¬ ResetsSid v.id e' := by
      rw [hvid]
      refine hreset tr₁ e₀ tr₂ e after (by simp) i user.id ⟨hcall.label, t₀, _, _, _, htask⟩ ⟨⟨w, hlabel⟩,
        t, hcreates, ?_⟩
      rw [haccount]
      exact nofun
    rw [sid_stays hpart.1 hpart.2 (fun e' he' => hkept e' (by simp [he'])) hv (by rw [hvsid]; exact nofun) hquiet hu
      (hid.trans hvid.symm)]
    exact hvsid

end Rows

/-! ## Sessions over a run -/

/-- Sessions are of rows that were given out, and are bound to their accounts. -/
structure Attributed (trace : ProxyTrace) (s : Proxy) : Prop where
  ids : ∀ r ∈ s.app.store.sessions, r.userId ≤ s.app.store.users.seq
  bound : SessionsBound trace s

section Runs

variable {b : Boot} {tr trace : ProxyTrace} {s s' : Proxy} {a : Act} {c : Call}

/-- A reset takes the sessions of the row away. -/
theorem App.userClearSid_sessions {m : Holder} {w : World} {app : App} {id : Int} {u : User}
    (hu : u ∈ app.store.users.rows) (hid : u.id = id) :
    ∀ r ∈ (App.answer m w (.userClearSid id) app).2.store.sessions, r.userId ≠ id := by
  intro r hr
  simp only [App.answer, App.write, Store.userClearSid] at hr
  split at hr
  · simpa using (List.mem_filter.1 hr).2
  · rename_i hnone
    refine absurd (List.any_eq_true.2 ⟨u, hu, ?_⟩) hnone
    exact beq_iff_eq.2 hid

theorem Attributed.follows {e : Entry Proxy Act} (h : Attributed tr s)
    (hsessions : s'.app.store.sessions ⊆ s.app.store.sessions) (hfollows : s.app.store.Follows c s'.app.store)
    (hcleared : ∀ u ∈ s.app.store.users.rows, c = .userClearSid u.id → ∀ r ∈ s'.app.store.sessions, r.userId ≠ u.id) :
    Attributed (tr ++ [e]) s' := by
  refine ⟨fun r hr => (h.ids r (hsessions hr)).trans hfollows.seq, fun r hr u' hu' hid hdir => ?_⟩
  have hr' := hsessions hr
  rcases hfollows.rows u' hu' with hnew | ⟨u, hu, hsame⟩
  · -- no session is of a row that is only now inserted
    have hold := h.ids r hr'
    omega
  · obtain ⟨sid, hsid, e', he', hsigns⟩ :=
      h.bound r hr' u hu (hsame.id.symm.trans hid) (hsame.isLocal.symm.trans hdir)
    refine ⟨sid, (hsame.sid ?_).trans hsid, e', List.mem_append_left _ he', hsigns⟩
    cases c with
    | userClearSid id =>
      refine beq_eq_false_iff_ne.2 fun heq => hcleared u hu (by rw [heq]) r hr ?_
      exact hid.symm.trans hsame.id
    | userRecordLogin => simp [Call.rebinds, hsid]
    | _ => rfl

theorem Store.sessionCreate_cases (s : Store) (tokenHash : Bytes) (userId incarnation expires now : Int) :
    (s.sessionCreate tokenHash userId incarnation expires now).2 = s ∨
    (∃ u ∈ s.users.rows, u.id = userId) ∧ (∀ r ∈ s.sessions, r.tokenHash ≠ tokenHash) ∧
      s.sessionCreate tokenHash userId incarnation expires now =
        (.ok true, { s with sessions := s.sessions ++ [⟨tokenHash, userId, now, expires⟩] }) := by
  unfold Store.sessionCreate
  split
  · rename_i hrow
    split
    · exact .inl rfl
    · rename_i htoken
      obtain ⟨u, hu, hids⟩ := List.any_eq_true.1 hrow
      rw [Bool.and_eq_true, beq_iff_eq] at hids
      refine .inr ⟨⟨u, hu, hids.1⟩, fun r hr heq => htoken ?_, rfl⟩
      exact List.any_eq_true.2 ⟨r, hr, beq_iff_eq.2 heq⟩
  · exact .inl rfl

theorem Attributed.step {K : Ground → Prop} (hsound : Sound K s) (h : Attributed tr s) (hstep : s.step a = some s')
    (hkept : ¬ Replaces ⟨s, a, s'⟩)
    (hbound : ∀ t userId, Creates ⟨s, a, s'⟩ t userId → ∀ u ∈ s.app.store.users.rows, u.id = userId →
      u.isLocal = false → ∃ account, t.account = some account ∧ u.sid = some account.sid) :
    Attributed (tr ++ [⟨s, a, s'⟩]) s' := by
  have hsame : s'.app.store = s.app.store → Attributed (tr ++ [⟨s, a, s'⟩]) s' := fun heq =>
    h.follows (c := .now) (by rw [heq]; exact List.Subset.refl _) (.of_users_eq (by rw [heq])) nofun
  rcases hsound.store_of_step hstep with heq | ⟨t, ⟨c, answer⟩, -, -, htc, -, -, -⟩
  · exact hsame heq
  obtain ⟨m, w, hanswer, happ⟩ := app_of_taskCall hstep htc
  simp only at hanswer happ
  have hreplace : ∀ store, c ≠ .replaceWith store := fun store heq => hkept ⟨t, store, by subst heq; exact htc⟩
  by_cases hrenews : c.renews = false
  · refine h.follows (c := c) ?_ ?_ ?_
    · rw [happ]
      exact (App.keeps_answer m w c s.app).fewer hrenews
    · rw [happ]
      exact .answer hreplace
    · rintro u hu rfl
      rw [happ]
      exact App.userClearSid_sessions hu rfl
  · cases c with
    | replaceWith store => exact absurd rfl (hreplace store)
    | sessionCreate tokenHash userId incarnation expires =>
      have hstore : s'.app.store = (s.app.store.sessionCreate tokenHash userId incarnation expires w.now).2 := by
        rw [happ]
        rfl
      rcases s.app.store.sessionCreate_cases tokenHash userId incarnation expires w.now with
        heq | ⟨⟨v, hv, hvid⟩, htoken, hnew⟩
      · exact hsame (hstore.trans heq)
      rw [hnew] at hstore
      have hsessions := congrArg Store.sessions hstore
      have husers := congrArg Store.users hstore
      simp only at hsessions husers
      refine ⟨fun r hr => ?_, fun r hr u hu hid hdir => ?_⟩
      · rw [husers]
        rw [hsessions, List.mem_append, List.mem_singleton] at hr
        rcases hr with hr | rfl
        · exact h.ids r hr
        · exact hvid ▸ s.app.store.users.id_le v hv
      · rw [husers] at hu
        have hr' := hr
        rw [hsessions, List.mem_append, List.mem_singleton] at hr'
        rcases hr' with hr' | rfl
        · obtain ⟨sid, hsid, e, he, hsigns⟩ := h.bound r hr' u hu hid hdir
          exact ⟨sid, hsid, e, List.mem_append_left _ he, hsigns⟩
        · obtain rfl : answer = .ok true := hanswer.trans (congrArg Prod.fst hnew)
          obtain ⟨account, haccount, hsid⟩ := hbound t userId ⟨_, _, _, htc⟩ u hu hid hdir
          refine ⟨account.sid, hsid, _, List.mem_concat_self, ?_⟩
          exact ⟨fun hmem => htoken _ hmem rfl, hr, t, _, account, htc, haccount, rfl⟩
    | _ => exact absurd rfl hrenews

/-- A session belongs to the account its row is bound to, in every run from a database without
sessions, that is not replaced, in which no row's SID is reset between a sign-in's
`user_record_login` and its `session_create`. -/
theorem sessions_bound (run : ProxyRun b trace s) (fresh : b.store.sessions = []) (kept : ∀ e ∈ trace, ¬ Replaces e)
    (unreset : NotResetBetween trace) : SessionsBound trace s := by
  have hattributed : Attributed trace s := by
    refine run.history ?_ ?_ kept unreset
    · intro _ _
      constructor <;> simp [SessionsBound, Boot.start, b.app_sessions, fresh]
    · intro tr s a s' hrun ih hstep hkept hunreset
      have hattributed := ih (fun e he => hkept e (List.mem_append_left _ he)) hunreset.before
      obtain ⟨-, hsound⟩ := gated_of_run hrun
      exact hattributed.step hsound hstep (hkept _ (by simp)) fun t userId hcreates u hu =>
        bound_of_creates (hrun.snoc hstep) hkept hunreset hcreates hu
  exact hattributed.bound

end Runs

/-! ## Scripts -/

/-- A row, not yet bound, an administrator's, and no sessions. -/
def unbound : Boot where
  bootstrapAdmins := [['b']]
  store := {
    users := (Table.empty.insert (fun id => ({ id, username := ['a'], incarnation := 1 } : User)) fun _ => rfl).insert
      (fun id => { id, username := ['b'], incarnation := 2 }) fun _ => rfl
    directoryPassword := some ⟨0, Vault.aadDirectoryPassword, ['p']⟩
    instanceId := some ['i'] }

/-- Two accounts that the directory has under the same name, one after the other. -/
def accountA : Account := { username := ['a'], sid := ['A'] }

def accountB : Account := { username := ['a'], sid := ['B'] }

/-- What matters of a step for the order of binding a row, resetting it and creating a session for it. -/
inductive Mark where
  | recorded (i : Nat) (id : Int)
  | reset (id : Int)
  | opened (i : Nat) (id : Int)
deriving DecidableEq

def mark (e : Entry Proxy Act) : Option Mark :=
  match e.label, taskCall e with
  | .call i _, some (_, ⟨.userRecordLogin id .., true⟩) => some (.recorded i id)
  | .call i _, some (_, ⟨.sessionCreate _ id .., .ok true⟩) => some (.opened i id)
  | _, some (_, ⟨.userClearSid id, _⟩) => some (.reset id)
  | _, _ => none

theorem notResetBetween_of_marks {trace : ProxyTrace}
    (h : ∀ i id, ¬ List.Sublist [.recorded i id, .reset id, .opened i id] (trace.filterMap mark)) :
    NotResetBetween trace := by
  rintro before e₀ between e after rfl i id ⟨⟨w₀, hlabel₀⟩, t₀, _, _, _, hcall₀⟩
    ⟨⟨w, hlabel⟩, t, ⟨_, _, _, hcall⟩, -⟩ e' he' ⟨t', removed, hcall'⟩
  have hthree : List.Sublist [e₀, e', e] (before ++ e₀ :: (between ++ e :: after)) := by
    refine (List.Sublist.cons_cons _ ?_).trans (List.sublist_append_right _ _)
    exact (List.singleton_sublist.2 he').append (List.singleton_sublist.2 List.mem_cons_self)
  have hmarked := hthree.filterMap mark
  simp only [List.filterMap_cons, mark, hlabel₀, hcall₀, hcall', hlabel, hcall, List.filterMap_nil] at hmarked
  exact h i id hmarked

/-- Both accounts sign in, with a reset after the first is done. -/
def resetAfter : List Act :=
  .request (.http (.ssoSignIn accountAdmin [9]) none) :: calls 0 15 ++
  .request (.http (.ssoSignIn accountA [1]) none) :: calls 1 15 ++
  .request (.http (.clearSid [9] 1) (some ['i'])) :: calls 2 11 ++
  .request (.http (.ssoSignIn accountB [2]) none) :: calls 3 15

/-- A user whose SID is reset signs in again as another account, and their session is on that one. -/
theorem sessions_bound_resetAfter : ∃ s r, ProxyRun unbound (scriptedProxy unbound resetAfter) s ∧
    (∃ e ∈ scriptedProxy unbound resetAfter, ResetsSid 1 e) ∧ r ∈ s.app.store.sessions ∧ r.userId = 1 ∧
    SessionsBound (scriptedProxy unbound resetAfter) s := by
  obtain ⟨s, run, hs⟩ := scriptedProxy_run unbound resetAfter
    (fun s => s.app.store.sessions.any fun r => r.userId == 1) (by decide +kernel)
  obtain ⟨r, hr, hid⟩ := List.any_eq_true.1 hs
  have hmarks : (scriptedProxy unbound resetAfter).filterMap mark = [.recorded 0 2, .opened 0 2, .recorded 1 1,
    .opened 1 1, .reset 1, .recorded 3 1, .opened 3 1] := by decide +kernel
  have hkept : (scriptedProxy unbound resetAfter).all keepsDatabase = true := by decide +kernel
  refine ⟨s, r, run, ?_, hr, beq_iff_eq.1 hid, sessions_bound run rfl ?_ ?_⟩
  · have hreset : Mark.reset 1 ∈ (scriptedProxy unbound resetAfter).filterMap mark := by simp [hmarks]
    obtain ⟨e, he, hmark⟩ := List.mem_filterMap.1 hreset
    unfold mark at hmark
    split at hmark <;> cases hmark
    rename_i hcall
    exact ⟨e, he, _, _, hcall⟩
  · exact fun e he => not_replaces_of_keepsDatabase (List.all_eq_true.1 hkept e he)
  · refine notResetBetween_of_marks fun i id hthree => ?_
    rw [hmarks] at hthree
    simp [List.cons_sublist_cons'] at hthree
    omega

/-- An administrator resets the row between the sign-in's bind and its session; then the other
account signs in. -/
def resetBetween : List Act :=
  .request (.http (.ssoSignIn accountAdmin [9]) none) :: calls 0 15 ++
  .request (.http (.ssoSignIn accountA [1]) none) :: calls 1 9 ++
  .request (.http (.clearSid [9] 1) (some ['i'])) :: calls 2 11 ++ calls 1 6 ++
  .request (.http (.ssoSignIn accountB [2]) none) :: calls 3 15

def sessionA : SessionRow := ⟨[1], 1, 0, 24 * 3600⟩

theorem not_signsIn_of_all {trace : ProxyTrace} {r : SessionRow} {sid : Text}
    (h : (trace.all fun e => decide (r ∈ e.pre.app.store.sessions) || decide (r ∉ e.post.app.store.sessions) ||
      (taskCall e).all fun c => c.1.account.all fun account => account.sid != sid) = true) :
    ∀ e ∈ trace, ¬ SignsIn e r sid := by
  rintro e he ⟨hpre, hpost, t, ev, account, htc, haccount, rfl⟩
  have he := List.all_eq_true.1 h e he
  simp [hpre, hpost, htc, haccount] at he

/-- The first account's session is then on the row of the second. -/
theorem session_of_other_account : ∃ s u, ProxyRun unbound (scriptedProxy unbound resetBetween) s ∧
    sessionA ∈ s.app.store.sessions ∧ u ∈ s.app.store.users.rows ∧ u.id = sessionA.userId ∧
    u.sid = some accountB.sid ∧ (∃ e ∈ scriptedProxy unbound resetBetween, SignsIn e sessionA accountA.sid) ∧
    ¬ SessionsBound (scriptedProxy unbound resetBetween) s := by
  obtain ⟨s, run, hs⟩ := scriptedProxy_run unbound resetBetween
    (fun s => decide (sessionA ∈ s.app.store.sessions) && s.app.store.users.rows.any fun u =>
      u.id == sessionA.userId && !u.isLocal && u.sid == some accountB.sid) (by decide +kernel)
  rw [Bool.and_eq_true, decide_eq_true_iff] at hs
  obtain ⟨hsession, hrow⟩ := hs
  obtain ⟨u, hu, hrow⟩ := List.any_eq_true.1 hrow
  rw [Bool.and_eq_true, Bool.and_eq_true, beq_iff_eq, beq_iff_eq, Bool.not_eq_true'] at hrow
  obtain ⟨⟨hid, hdir⟩, hsid⟩ := hrow
  refine ⟨s, u, run, hsession, hu, hid, hsid, ?_, fun hbound => ?_⟩
  · have hsigned : (scriptedProxy unbound resetBetween).any (fun e =>
        decide (sessionA ∉ e.pre.app.store.sessions) && decide (sessionA ∈ e.post.app.store.sessions) &&
        (taskCall e).any fun c => c.1.account == some accountA) = true := by decide +kernel
    obtain ⟨e, he, hsigned⟩ := List.any_eq_true.1 hsigned
    rw [Bool.and_eq_true, Bool.and_eq_true, decide_eq_true_iff, decide_eq_true_iff, Option.any_eq_true] at hsigned
    obtain ⟨⟨hpre, hpost⟩, ⟨t, ev⟩, htc, haccount⟩ := hsigned
    exact ⟨e, he, hpre, hpost, t, ev, accountA, htc, beq_iff_eq.1 haccount, rfl⟩
  · obtain ⟨sid, hsid', e, he, hsigns⟩ := hbound _ hsession u hu hid hdir
    cases hsid.symm.trans hsid'
    exact not_signsIn_of_all (by decide +kernel) e he hsigns

end WebAccess
