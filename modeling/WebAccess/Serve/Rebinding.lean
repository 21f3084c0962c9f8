/-
Whom the check of the directory's accounts revokes (`revocation_pass`). It reads the rows of users,
asks the directory for each by the SID the row is bound to, and revokes, some time later, by the row
of the same id. As long as the rows it has read stay bound as they are until it is done, whatever it
revokes is bound to the account the directory was asked for. A row whose SID is reset and bound anew
in between is revoked by what the directory said of the account it was bound to before: the row is
read again, but only its name is compared.
-/
import WebAccess.Serve.Rows

namespace WebAccess

open Codec Wire Process Transition

/-! ## What a pass goes by -/

/-- The rows of users a call of a pass is answered with. -/
def gives : Event Api → List User
  | ⟨.directoryUsersWithSessions, users⟩ => users
  | ⟨.userById _, found⟩ => found.toList
  | _ => []

/-- A row that one of the calls was answered with. -/
def HasRead (made : List (Event Api)) (u : User) : Prop := ∃ ev ∈ made, u ∈ gives ev

variable {u : User}

theorem HasRead.mono {made made' : List (Event Api)} (h : HasRead made u) (hmade : made <+: made') :
    HasRead made' u := by
  obtain ⟨ev, hev, hu⟩ := h
  exact ⟨ev, hmade.subset hev, hu⟩

/-- The calls that revoke what a user has: the sessions, and the connections. -/
def Call.revokes (id : Int) : Call → Bool
  | .sessionsDeleteUser id' | .sweep (.user id') => id' == id
  | _ => false

/-- What a pass revokes a user by: the directory's answer for a row of that id it has read, and the row as it read it
again. -/
structure Answered (lookupEach : LookupEach) (made : List (Event Api)) (id : Int)
    (checked user : User) (account : Option Account) : Prop where
  asked : ∃ (users : List User) (found : List Lookup) (name : Text), (∀ u ∈ users, HasRead made u) ∧
    lookupEach (users.map lookupName) = some found ∧ (checked, name, .ok account) ∈ users.zip found
  again : ⟨.userById checked.id, some user⟩ ∈ made
  userId : user.id = id
  username : user.username = checked.username
  directory : user.isLocal = false
  reason : revocationReason user account = true

/-- A pass revokes only by the directory's answers. -/
abbrev Passing (r : Request) : Protocol Api :=
  .logging fun made c => ∀ lookupEach id, r = .revocationPass lookupEach → c.revokes id = true →
    ∃ checked user account, Answered lookupEach made id checked user account

section Programs

variable {α β : Type} {r : Request} {made : List (Event Api)}

theorem passing_ask {c : Call} {f : c.Answer → Prog Api β} {post : List (Event Api) → β → Prop}
    (hc : ∀ id, c.revokes id = false) (hf : ∀ a, (f a).Obeys (Passing r) post (made ++ [⟨c, a⟩])) :
    (ask c >>= f).Obeys (Passing r) post made := by
  refine obeys_call (P := Passing r) (fun lookupEach id _ h => ?_) hf
  rw [hc] at h
  cases h

theorem passing_holding {p : Prog Api α} {h : Hold} {post : List (Event Api) → α → Prop}
    (hpost : ∀ made ev a, post made a → post (made ++ [ev]) a)
    (hp : p.Obeys (Passing r) post (made ++ [⟨.acquire h, ()⟩])) :
    (holding h p).Obeys (Passing r) post made := by
  refine passing_ask (fun _ => rfl) fun _ => obeys_bind.2 (hp.mono fun made a ha => ?_)
  exact passing_ask (fun _ => rfl) fun _ => hpost _ _ _ ha

theorem passing_connectedUsers (seen : List Int) : ∀ (ids : List Int) {made : List (Event Api)},
    (connectedUsers seen ids).Obeys (Passing r) (fun made' us => made <+: made' ∧ ∀ u ∈ us, HasRead made' u) made
  | [], made => ⟨List.prefix_refl _, fun u hu => by cases hu⟩
  | id :: ids, made => by
    unfold connectedUsers
    split
    · exact passing_connectedUsers seen ids
    · refine passing_ask (fun _ => rfl) fun found => obeys_bind.2 ?_
      refine (passing_connectedUsers seen ids).mono fun made' rest hrest => ?_
      refine ⟨(List.prefix_append _ _).trans hrest.1, fun u hu => ?_⟩
      rcases List.mem_append.1 hu with hu | hu
      · have hfound : u ∈ found.toList := by
          rw [Option.mem_toList] at hu ⊢
          exact (Option.filter_eq_some_iff.1 hu).1
        exact HasRead.mono ⟨⟨.userById id, found⟩, by simp, hfound⟩ hrest.1
      · exact hrest.2 u hu

theorem passing_usersToCheck : usersToCheck.Obeys (Passing r) (fun made' us => ∀ u ∈ us, HasRead made' u) made := by
  refine passing_ask (fun _ => rfl) fun users => passing_ask (fun _ => rfl) fun ids => obeys_bind.2 ?_
  refine (passing_connectedUsers _ ids).mono fun made' connected hconnected u hu => ?_
  rcases List.mem_append.1 hu with hu | hu
  · refine HasRead.mono ⟨⟨.directoryUsersWithSessions, users⟩, ?_, hu⟩ hconnected.1
    simp
  · exact hconnected.2 u hu

theorem passing_passReads : passReads.Obeys (Passing r) (fun made' found => ∀ g users, found = .ok (some (g, users)) →
    ∀ u ∈ users, HasRead made' u) made := by
  refine obeys_bind.2 (passing_ask (fun _ => rfl) fun stored => ?_)
  cases stored with
  | none => exact fun _ _ h => by cases h
  | some value =>
    refine passing_ask (fun _ => rfl) fun key => ?_
    cases key with
    | none => exact fun _ _ h => by cases h
    | some key =>
      simp only []
      split
      · exact fun _ _ h => by cases h
      · refine passing_ask (fun _ => rfl) fun g => obeys_bind.2 (passing_usersToCheck.mono fun made' users husers => ?_)
        rintro g' users' ⟨⟩
        exact husers

theorem passing_applyLookups {lookupEach : LookupEach} {users : List User}
    {found : List Lookup} (hlookup : lookupEach (users.map lookupName) = some found) :
    ∀ (rest : List (User × Lookup)) (pass : Pass) {made : List (Event Api)}, rest ⊆ users.zip found →
      (∀ u ∈ users, HasRead made u) →
      (applyLookups pass rest).Obeys (Passing (.revocationPass lookupEach)) (fun _ _ => True) made
  | [], pass, made, _, _ => trivial
  | (checked, name, .error ()) :: rest, pass, made, hsub, hread =>
    passing_applyLookups hlookup rest _ (List.cons_subset.1 hsub).2 hread
  | (checked, name, .ok account) :: rest, pass, made, hsub, hread => by
    obtain ⟨hmem, hrest⟩ := List.cons_subset.1 hsub
    have hmore : ∀ {more : List (Event Api)}, made <+: more → ∀ u ∈ users, HasRead more u :=
      fun hmade u hu => (hread u hu).mono hmade
    refine passing_ask (fun _ => rfl) fun again => ?_
    cases hfilter : again.filter fun u => !u.isLocal && u.username == checked.username with
    | none =>
      simp only []
      exact passing_applyLookups hlookup rest _ hrest (hmore (List.prefix_append _ _))
    | some user =>
      simp only []
      split
      · rename_i hreason
        obtain ⟨hagain, hfound⟩ := Option.filter_eq_some_iff.1 hfilter
        simp only [Bool.and_eq_true, Bool.not_eq_true', beq_iff_eq] at hfound
        have hanswered : ∀ {more : List (Event Api)}, made ++ [⟨.userById checked.id, again⟩] <+: more →
            Answered lookupEach more user.id checked user account := fun hmade => {
          asked := ⟨users, found, name, hmore ((List.prefix_append _ _).trans hmade), hlookup, hmem⟩
          again := hmade.subset (by simp [hagain])
          userId := rfl
          username := hfound.2
          directory := hfound.1
          reason := hreason }
        have hallows : ∀ {c : Call} {more : List (Event Api)}, (∀ id, c.revokes id = true → user.id = id) →
            made ++ [⟨.userById checked.id, again⟩] <+: more →
            (Passing (.revocationPass lookupEach)).allows more c := by
          rintro c more hc hmade lookupEach id ⟨⟩ hrevokes
          rw [← hc id hrevokes]
          exact ⟨checked, user, account, hanswered hmade⟩
        refine obeys_call (hallows (fun _ h => beq_iff_eq.1 h) (List.prefix_refl _)) fun _ => ?_
        refine obeys_call (hallows (fun _ h => beq_iff_eq.1 h) (List.prefix_append _ _)) fun _ => ?_
        refine passing_applyLookups hlookup rest _ hrest (hmore ?_)
        simp only [List.append_assoc]
        exact List.prefix_append _ _
      · exact passing_applyLookups hlookup rest _ hrest (hmore (List.prefix_append _ _))

theorem passing_revocationPass (lookupEach : LookupEach) :
    (revocationPass lookupEach).Obeys (Passing (.revocationPass lookupEach)) (fun _ _ => True) made := by
  have hpost : ∀ (made : List (Event Api)) ev (found : ApiResult (Option (Nat × List User))),
      (∀ g users, found = .ok (some (g, users)) → ∀ u ∈ users, HasRead made u) →
      ∀ g users, found = .ok (some (g, users)) → ∀ u ∈ users, HasRead (made ++ [ev]) u :=
    fun made ev found h g users hfound u hu => (h g users hfound u hu).mono (List.prefix_append _ _)
  refine obeys_bind.2 ((passing_holding hpost passing_passReads).mono fun made' read hread => ?_)
  match read with
  | .error _ | .ok none => exact trivial
  | .ok (some (g, users)) =>
    simp only []
    split
    · exact trivial
    · cases hlookup : lookupEach (users.map lookupName) with
      | none => exact trivial
      | some found =>
        refine passing_holding (fun _ _ _ _ => trivial) (passing_ask (fun _ => rfl) fun current => ?_)
        split
        · have hmade : made' <+: made' ++ [⟨.acquire .shared, ()⟩] ++ [⟨.generation, current⟩] := by
            simp only [List.append_assoc]
            exact List.prefix_append _ _
          have happly := passing_applyLookups hlookup _ {} (List.Subset.refl _)
            fun u hu => (hread g users rfl u hu).mono hmade
          exact obeys_bind.2 (happly.mono fun _ _ _ => trivial)
        · exact trivial

end Programs

theorem passing_program (r : Request) : r.program.Obeys (Passing r) (fun _ _ => True) [] := by
  cases r with
  | revocationPass lookupEach =>
    exact obeys_bind.2 ((passing_revocationPass lookupEach).mono fun _ _ _ => trivial)
  | _ => exact obeys_of_allows (fun _ _ _ _ h => by cases h) _ _

/-! ## Between the read and the revocation -/

/-- A pass that has read the row of an id and is not done. -/
structure Running.Checking (t : Running) (id : Int) : Prop where
  pass : ∃ lookupEach, t.request = .revocationPass lookupEach
  running : t.task.prog.result? = none
  read : ∃ u, HasRead t.task.made u ∧ u.id = id

/-- The rows that a pass has read stay bound as they are until it is done. -/
def Steady (e : Entry Proxy Act) : Prop := ∀ t ∈ e.pre.tasks, ∀ id, t.Checking id → ¬ Rebinds id e

section Runs

variable {b : Boot} {trace tr : ProxyTrace} {s s' : Proxy} {i : Nat} {t : Running}

theorem returned_of_run (hrun : ProxyPath s tr s') (ht : s.tasks[i]? = some t)
    (hreturned : t.task.prog.result? ≠ none) : s'.tasks[i]? = some t := by
  refine hrun.invariant ht fun s a s' ht hstep => ?_
  rcases Proxy.task_goes hstep ht with ht' | ⟨w, e, task, app, rfl, hmade, -⟩
  · exact ht'
  · exact absurd (Task.result_of_step hmade) hreturned

variable {ev : Event Api} {u : User}

variable {w : World}

theorem mem_of_gives {m : Holder} {a : App} (hanswer : ev.answer = (App.answer m w ev.call a).1) (hu : u ∈ gives ev) :
    u ∈ a.store.users.rows ∧ ∀ id, ev.call = .userById id → u.id = id := by
  obtain ⟨c, answer⟩ := ev
  obtain rfl : answer = (App.answer m w c a).1 := hanswer
  cases c with
  | directoryUsersWithSessions => exact ⟨List.mem_of_mem_filter hu, fun _ h => by cases h⟩
  | userById id =>
    obtain ⟨hmem, hid⟩ := Table.byId_eq_some (Option.mem_toList.1 hu)
    refine ⟨hmem, fun id' h => ?_⟩
    cases h
    exact hid
  | _ => cases hu

theorem look_of_gives (hu : u ∈ gives ev) : ev.call.reads = true ∧ ∀ v, ev.call.rebinds v = false := by
  obtain ⟨c, answer⟩ := ev
  cases c with
  | directoryUsersWithSessions | userById => exact ⟨rfl, fun _ => rfl⟩
  | _ => cases hu

/-- A row that a step of a task has read, in the database in place. -/
def ReadBy (i : Nat) (before : ProxyTrace) (s : Proxy) (u : User) : Prop :=
  ∃ e ∈ before, (∃ w, e.label = .call i w) ∧ (∃ t ev, taskCall e = some (t, ev) ∧ u ∈ gives ev) ∧
    u ∈ e.pre.app.store.users.rows ∧ e.pre.app.imports = s.app.imports

/-- A row that a request has read, and how it is bound when the request writes next. -/
structure ReadAt (i : Nat) (trace : ProxyTrace) (s : Proxy) (ev : Event Api) (u : User) : Prop where
  was : ReadBy i trace s u
  id : ∀ id, ev.call = .userById id → u.id = id
  bound : ∀ v ∈ s.app.store.users.rows, v.id = u.id → v.sid = u.sid ∧ v.isLocal = u.isLocal

theorem readAt_of_steady (run : ProxyRun b trace s) (hsteady : ∀ e ∈ trace, Steady e) (ht : s.tasks[i]? = some t)
    {lookupEach : LookupEach} (hr : t.request = .revocationPass lookupEach)
    {e : Event Api} {task : Task Api (ApiResult Reply)} {app : App}
    (hmade : t.task.step (App.serve (.task i) w) s.app = some (e, task, app)) (hwrites : e.call.writes = true)
    (hev : ev ∈ t.task.made) (hu : u ∈ gives ev) : ReadAt i trace s ev u := by
  obtain ⟨e₀, he₀, hcall⟩ := calls_of_run run i t ht ev hev
  obtain ⟨hreads, hlook⟩ := look_of_gives hu
  obtain ⟨t₀, hcall₀, hsame⟩ := hcall.task
  obtain ⟨w₀, hlabel⟩ := hcall.label
  obtain ⟨task₀, app₀, ht₀, hmade₀⟩ := taskCall_of_label hcall₀ hlabel
  obtain ⟨hmem, hid⟩ := mem_of_gives (App.served hmade₀).2.1 hu
  have himports : e₀.pre.app.imports = s.app.imports :=
    (fenced_of_run run).seen_of_writes (gated_of_run run).1 (List.mem_of_getElem? ht) hmade (by rw [hr]; rfl) hwrites _
      (hcall.seen hreads)
  refine ⟨⟨e₀, he₀, hcall.label, ⟨t₀, ev, hcall₀, hu⟩, hmem, himports⟩, hid, fun v hv hvid => ?_⟩
  obtain ⟨tr₁, tr₂, rfl⟩ := List.append_of_mem he₀
  obtain ⟨hbefore, hstep₀⟩ := run.before
  have hafter := run.after.2
  have hrun : ProxyPath e₀.pre ([e₀] ++ tr₂) s := (Run.snoc .nil hstep₀).append hafter
  have ht₁ : e₀.post.tasks[i]? = some (t₀.went e₀.pre.app.imports ev task₀) :=
    Proxy.task_of_call (hlabel ▸ hstep₀) ht₀ hmade₀
  -- from the read on nothing changes how the row is bound
  have hquiet : ∀ e' ∈ [e₀] ++ tr₂, ¬ Rebinds u.id e' := by
    intro e' he'
    rcases List.mem_append.1 he' with he' | he'
    · rintro ⟨v, -, -, t', ev', hcall', hrebinds⟩
      rw [List.mem_singleton.1 he', hcall₀] at hcall'
      cases hcall'
      rw [hlook v] at hrebinds
      cases hrebinds
    · obtain ⟨c₁, c₂, rfl⟩ := List.append_of_mem he'
      obtain ⟨t', ht', hr', hmade'⟩ := task_of_run hafter.before.1 ht₁
      refine hsteady e' (by simp) t' (List.mem_of_getElem? ht') u.id ⟨⟨lookupEach, ?_⟩, ?_, u, ⟨ev, ?_, hu⟩, rfl⟩
      · rw [hr']
        exact hsame.trans hr
      · by_contra hreturned
        have hlater : ProxyPath e'.pre ([e'] ++ c₂) s :=
          (Run.snoc .nil hafter.before.2).append hafter.after.2
        obtain rfl := Option.some_inj.1 (ht.symm.trans (returned_of_run hlater ht' hreturned))
        exact hreturned (Task.result_of_step hmade)
      · refine hmade'.subset ?_
        change ev ∈ task₀.made
        rw [(Task.step_eq_some hmade₀).2]
        exact List.mem_concat_self
  have hstays := stays_of_run hbefore hrun (not_replaces_of_run hrun himports)
  obtain ⟨u', hu', hid', -, hlocal, hsid⟩ := hstays.rows v hv (hvid ▸ e₀.pre.app.store.users.id_le u hmem)
  obtain rfl := Table.eq_of_id_eq hu' hmem (hid'.symm.trans hvid)
  exact ⟨hsid hquiet, hlocal⟩

end Runs

/-! ## Whom a pass revokes -/

/-- A step of a pass that deletes the sessions of a user, or ends the connections. -/
def Revokes (lookupEach : LookupEach) (id : Int) (e : Entry Proxy Act) : Prop :=
  ∃ t ev, taskCall e = some (t, ev) ∧ t.request = .revocationPass lookupEach ∧ ev.call.revokes id = true

/-- The pass that makes a step has asked the directory for the rows it has itself read, in the same database, by the
SIDs they were bound to; the answer for one of the user's id is a reason to revoke the row as it is, and the row is
bound as it was. -/
structure RevokedFor (lookupEach : LookupEach) (before : ProxyTrace)
    (e : Entry Proxy Act) (id : Int) (checked : User) (account : Option Account) : Prop where
  asked : ∃ i w, e.label = .call i w ∧ ∃ (users : List User) (found : List Lookup) (name : Text),
    (∀ u ∈ users, ReadBy i before e.pre u) ∧ lookupEach (users.map lookupName) = some found ∧
    (checked, name, .ok account) ∈ users.zip found
  checkedId : checked.id = id
  bound : ∀ u ∈ e.pre.app.store.users.rows, u.id = id →
    u.sid = checked.sid ∧ u.isLocal = false ∧ revocationReason u account = true

/-- In every run in which the rows a pass has read stay bound as they are until it is done, a pass revokes a user only
by what the directory said of the account the row is bound to at that moment. -/
theorem revoked_for_bound_account {b : Boot} {trace : ProxyTrace} {s : Proxy} (run : ProxyRun b trace s)
    (hsteady : ∀ e ∈ trace, Steady e) :
    ∀ before e after, trace = before ++ e :: after → ∀ lookupEach id, Revokes lookupEach id e →
      ∃ checked account, RevokedFor lookupEach before e id checked account := by
  rintro before e after rfl lookupEach id ⟨t, ev, hcall, hr, hrevokes⟩
  obtain ⟨run, -⟩ := run.before
  have hsteady : ∀ e ∈ before, Steady e := fun e he => hsteady e (List.mem_append_left _ he)
  obtain ⟨i, w, task, app, hlabel, ht, hmade⟩ := taskCall_eq_some hcall
  have hwrites : ev.call.writes = true := by
    obtain ⟨c, a⟩ := ev
    cases c <;> first | rfl | cases hrevokes
  have hobeys := obeys_of_run run (P := Passing) (q := fun _ => []) passing_program t (List.mem_of_getElem? ht)
  obtain ⟨hallows, -, -⟩ := hobeys.step hmade
  rw [Protocol.after_logging, List.nil_append] at hallows
  obtain ⟨checked, user, account, hanswered⟩ := hallows lookupEach id hr hrevokes
  obtain ⟨users, found, name, hread, hlookup, hmem⟩ := hanswered.asked
  have hreadAt : ∀ u ∈ users, ∃ ev, ReadAt i before e.pre ev u := by
    intro u hu
    obtain ⟨ev₁, hev₁, hgives⟩ := hread u hu
    exact ⟨ev₁, readAt_of_steady run hsteady ht hr hmade hwrites hev₁ hgives⟩
  obtain ⟨_, hchecked⟩ := hreadAt checked (List.of_mem_zip hmem).1
  have hagain := readAt_of_steady run hsteady ht hr hmade hwrites hanswered.again (Option.mem_toList.2 rfl)
  have hid : user.id = checked.id := hagain.id checked.id rfl
  have hcheckedId : checked.id = id := hid.symm.trans hanswered.userId
  refine ⟨checked, account, ⟨i, w, hlabel, users, found, name, fun u hu => ?_, hlookup, hmem⟩, hcheckedId,
    fun u hu huid => ?_⟩
  · obtain ⟨_, hwas⟩ := hreadAt u hu
    exact hwas.was
  obtain ⟨hsid, -⟩ := hchecked.bound u hu (huid.trans hcheckedId.symm)
  obtain ⟨hsid', hlocal⟩ := hagain.bound u hu (huid.trans hanswered.userId.symm)
  refine ⟨hsid, hlocal.trans hanswered.directory, ?_⟩
  have hreason := hanswered.reason
  unfold revocationReason at hreason ⊢
  rw [hsid']
  exact hreason

/-! ### A row that is bound anew -/

/-- The answers of a directory that has some accounts: found by SID where one is given, and by name otherwise. -/
def directoryOf (accounts : List Account) (names : List (Text × Option Text)) : Option (List Lookup) :=
  some (names.map fun n => (n.1, .ok (accounts.find? fun a => match n.2 with
    | some sid => a.sid == sid
    | none => a.username == n.1)))

theorem account_of_zip {accounts : List Account} {users : List User} {found : List Lookup} {name : Text}
    {account : Option Account} (hfound : directoryOf accounts (users.map lookupName) = some found)
    (hmem : (u, name, .ok account) ∈ users.zip found) :
    account = accounts.find? fun a => match (lookupName u).2 with
      | some sid => a.sid == sid
      | none => a.username == u.username := by
  unfold directoryOf at hfound
  obtain rfl := Option.some_inj.1 hfound
  rw [List.map_map, List.zip_map_right] at hmem
  obtain ⟨⟨v, v'⟩, hzip, heq⟩ := List.mem_map.1 hmem
  obtain rfl : v = v' := by
    obtain ⟨k, hk⟩ := List.mem_iff_getElem?.1 hzip
    obtain ⟨h, h'⟩ := List.getElem?_zip_eq_some.1 hk
    exact Option.some_inj.1 (h.symm.trans h')
  simp only [Prod.map_apply, id, Prod.mk.injEq, Function.comp] at heq
  obtain ⟨rfl, -, haccount⟩ := heq
  exact (Except.ok.inj haccount).symm

/-- An account that was disabled under another name, one that has its name, and the administrator's. -/
def disabledAccount : Account := { username := ['o'], sid := ['S', '-', '1'], disabled := true }

def namesakeAccount : Account := { username := ['a'], sid := ['S', '-', '3'] }

def boundAdmin : Account := { username := ['b'], sid := ['S', '-', '2'] }

def passOf : Act := .request (.revocationPass (directoryOf [disabledAccount, namesakeAccount, boundAdmin]))

/-- A user bound to the first account, and an administrator, both signed in. -/
def boundUsers : Boot where
  store := {
    users := (Table.empty.insert
      (fun id => ({ id, username := ['a'], sid := some disabledAccount.sid, incarnation := 1 } : User)) fun _ =>
        rfl).insert
      (fun id => { id, username := ['b'], sid := some boundAdmin.sid, isAdmin := true, incarnation := 2 }) fun _ => rfl
    sessions := [⟨[1], 1, 0, 100⟩, ⟨[2], 2, 0, 100⟩]
    instanceId := some ['i']
    masterLocal := some (Vault.protect 0 0)
    directoryPassword := some ⟨0, Vault.aadDirectoryPassword, ['p']⟩ }

def revokesFirst (e : Entry Proxy Act) : Bool :=
  match taskCall e with
  | some (t, ev) => (t.request matches .revocationPass _) && ev.call.revokes 1
  | none => false

theorem revokes_of_revokesFirst {e : Entry Proxy Act} (h : revokesFirst e = true) :
    ∃ lookupEach, Revokes lookupEach 1 e := by
  unfold revokesFirst at h
  split at h
  · rename_i t ev hcall
    obtain ⟨hr, hrevokes⟩ := Bool.and_eq_true_iff.1 h
    cases hrequest : t.request with
    | revocationPass lookupEach => exact ⟨lookupEach, t, ev, hcall, hrequest, hrevokes⟩
    | _ =>
      rw [hrequest] at hr
      cases hr
  · cases h

theorem steady_of_all {trace : ProxyTrace}
    (h : (trace.all fun e => (taskCall e).all fun c => !(c.2.call.tag matches .user | .revoke) ||
      c.2.call matches .sessionsDeleteUser _) = true) : ∀ e ∈ trace, Steady e := by
  rintro e he t - id - ⟨u, -, -, t', ev, hcall, hrebinds⟩
  have hquiet := List.all_eq_true.1 h e he
  rw [hcall] at hquiet
  obtain ⟨c, a⟩ := ev
  cases c <;> first | cases hrebinds | cases hquiet

/-- The account that a user is bound to is disabled. -/
theorem revoked_for_bound_account_disabled : ∃ s, ProxyRun boundUsers
    (scriptedProxy boundUsers (passOf :: calls 0 14)) s ∧
    ∃ before e after, scriptedProxy boundUsers (passOf :: calls 0 14) = before ++ e :: after ∧
      ∃ lookupEach checked account, Revokes lookupEach 1 e ∧ RevokedFor lookupEach before e 1 checked account := by
  obtain ⟨s, run, -⟩ := scriptedProxy_run boundUsers (passOf :: calls 0 14) (fun _ => true) (by decide +kernel)
  have hrevokes : (scriptedProxy boundUsers (passOf :: calls 0 14)).any revokesFirst = true := by decide +kernel
  obtain ⟨e, he, hrevokes⟩ := List.any_eq_true.1 hrevokes
  obtain ⟨lookupEach, hrevokes⟩ := revokes_of_revokesFirst hrevokes
  obtain ⟨before, after, htrace⟩ := List.append_of_mem he
  obtain ⟨checked, account, hfor⟩ := revoked_for_bound_account run (steady_of_all (by decide +kernel)) before e after
    htrace lookupEach 1 hrevokes
  exact ⟨s, run, before, e, after, htrace, lookupEach, checked, account, hrevokes, hfor⟩

/-- The pass reads the rows and asks; an administrator resets the user's SID, and the account that has the name now
signs in; then the pass applies what it was told. -/
def reboundBetween : List Act :=
  passOf :: calls 0 7 ++ .request (.http (.clearSid [2] 1) (some ['i'])) :: calls 1 11 ++
    .request (.http (.ssoSignIn namesakeAccount [3]) none) :: calls 2 15 ++ calls 0 7

/-- The sessions of a user who is bound to one account are deleted by what the directory said of another. -/
theorem revoked_for_other_account : ∃ s trace before e after, ProxyRun boundUsers trace s ∧
    trace = before ++ e :: after ∧ ∃ lookupEach, Revokes lookupEach 1 e ∧
      (∃ u ∈ e.pre.app.store.users.rows, u.id = 1 ∧ u.sid = some namesakeAccount.sid) ∧
      ∀ checked account, ¬ RevokedFor lookupEach before e 1 checked account := by
  obtain ⟨s, run, -⟩ := scriptedProxy_run boundUsers reboundBetween (fun _ => true) (by decide +kernel)
  have hrevokes : (scriptedProxy boundUsers reboundBetween).any (fun e => revokesFirst e &&
      e.pre.app.store.users.rows.any fun u => u.id == 1 && u.sid == some namesakeAccount.sid) = true := by
    decide +kernel
  obtain ⟨e, he, h⟩ := List.any_eq_true.1 hrevokes
  obtain ⟨hrevokes, hrow⟩ := Bool.and_eq_true_iff.1 h
  obtain ⟨u, hu, hbound⟩ := List.any_eq_true.1 hrow
  simp only [Bool.and_eq_true, beq_iff_eq] at hbound
  obtain ⟨lookupEach, hrevokes⟩ := revokes_of_revokesFirst hrevokes
  obtain ⟨before, after, htrace⟩ := List.append_of_mem he
  refine ⟨s, _, before, e, after, run, htrace, lookupEach, hrevokes, ⟨u, hu, hbound⟩, ?_⟩
  -- it is the one pass of the script
  have hlookup : lookupEach = directoryOf [disabledAccount, namesakeAccount, boundAdmin] := by
    obtain ⟨t, ev, hcall, hr, -⟩ := hrevokes
    obtain ⟨i, w, task, app, -, ht, -⟩ := taskCall_eq_some hcall
    rw [htrace] at run
    obtain ⟨e', he', hlabel⟩ := requested_of_run run.before.1 t (List.mem_of_getElem? ht) (by rw [hr]; rfl)
    have he' : e' ∈ scriptedProxy boundUsers reboundBetween := by
      rw [htrace]
      exact List.mem_append_left _ he'
    have hmem : e'.label ∈ reboundBetween := label_mem_of_trace he'
    rw [hlabel, hr] at hmem
    simpa [reboundBetween, passOf, calls] using hmem
  subst hlookup
  intro checked account hfor
  obtain ⟨hsid, -, hreason⟩ := hfor.bound u hu hbound.1
  obtain ⟨-, -, -, users, found, name, -, hfound, hmem⟩ := hfor.asked
  have haccount := account_of_zip hfound hmem
  have hasked : (lookupName checked).2 = some namesakeAccount.sid := by
    have hfilter : (some namesakeAccount.sid).filter (fun sid => "S-".toList.isPrefixOf sid) =
      some namesakeAccount.sid := by decide
    rw [lookupName, ← hsid, hbound.2]
    exact hfilter
  rw [hasked] at haccount
  have hnamesake : account = some namesakeAccount := haccount.trans rfl
  rw [hnamesake] at hreason
  simp [revocationReason, hbound.2, namesakeAccount] at hreason

end WebAccess
