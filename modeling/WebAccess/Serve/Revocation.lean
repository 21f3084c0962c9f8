/-
What ends a connection. Once the requests that take access away have returned, a connection whose
sign-in or server one of them deleted has been refused or ended. The same holds of its assignment
only where a change of a user's assignments removes nothing it had not read before: two changes at
once can leave a connection to a server that is no longer assigned.
-/
import WebAccess.Serve.Backing

namespace WebAccess

open Codec Wire Process Transition

variable {b : Boot} {trace : ProxyTrace} {s : Proxy}

/-! ## Sign-ins and servers -/

def Ground.Lasting (g : Ground) : Prop := ∀ userId serverId, g ≠ .assignment userId serverId

/-- The sign-in a connection was opened under and, once it is admitted, its server. -/
def Session.openedOn (x : Session) : List Ground :=
  .signIn x.tokenHash x.user.id :: (x.phase.target?.map fun target => .server target.id).toList

/-- Admission has decided, and the connection is not over. -/
def Phase.Decided : Phase → Prop
  | .refused _ | .admitted _ | .opening .. | .established _ => True
  | .upgraded | .admitting _ | .closed => False

/-- The requests that sign in or put another database in place. -/
def Request.renews (r : Request) : Bool := r.footprint.contains .session || r.footprint.contains .swap

/-- No request of the history signs in or puts another database in place. -/
def NoSignIn (trace : ProxyTrace) : Prop := ∀ e ∈ trace, ∀ r, e.label = .request r → r.renews = false

variable {s' : Proxy} {a : Act}

theorem renews_of_step (hstep : s.step a = some s') (h : ∀ t ∈ s.tasks, t.request.renews = false)
    (ha : ∀ r, a = .request r → r.renews = false) : ∀ t ∈ s'.tasks, t.request.renews = false := by
  refine Proxy.tasks_of_step hstep h (fun r _ hr => ?_) fun _ _ _ _ _ _ _ _ ht => ht
  cases hr with
  | outside label => exact ha r label
  | _ => rfl

theorem Call.among.not_renews {r : Request} {c : Call} (h : c.among r.footprint) (hr : r.renews = false) :
    c.renews = false ∧ c ≠ .sessionsPurge := by
  obtain ⟨hsession, hswap⟩ := Bool.or_eq_false_iff.1 hr
  have hsession := h.tag_ne hsession nofun
  have hswap := h.tag_ne hswap nofun
  refine ⟨?_, fun hc => hsession (hc ▸ rfl)⟩
  cases c <;> first | rfl | exact absurd rfl hsession | exact absurd rfl hswap

/-- Without sign-ins the invariant holds of sign-ins and servers, and those that went stay gone. -/
structure Lasts (trace : ProxyTrace) (s : Proxy) : Prop where
  sound : Sound Ground.Lasting s
  renews : ∀ t ∈ s.tasks, t.request.renews = false
  spent : ∀ e ∈ trace, ∀ g : Ground, g.Lasting → g.Holds e.pre.app.store → ¬ g.Holds e.post.app.store →
    g.Spent s.app.store

theorem Ground.spent_of_lost {g : Ground} {s s' : Store} (hlasting : g.Lasting) (h : g.Holds s) (hgone : ¬ g.Holds s')
    (hsheds : s.Sheds s') : g.Spent s' := by
  cases g with
  | signIn => exact hgone
  | server serverId =>
    obtain ⟨v, hv, rfl⟩ := h
    exact ⟨hgone, (s.servers.id_le v hv).trans hsheds.seq⟩
  | assignment userId serverId => exact absurd rfl (hlasting userId serverId)

theorem Lasts.sheds (h : Lasts trace s) (hstep : s.step a = some s') : s.app.store.Sheds s'.app.store := by
  rcases h.sound.store_of_step hstep with hsame | ⟨t, ev, m, w, -, ht, hamong, happ⟩
  · rw [hsame]
    exact .of_servers_eq (List.Subset.refl _) rfl
  · rw [happ]
    exact sheds_answer (hamong.not_renews (h.renews t ht)).1

theorem lasts_of_run (run : ProxyRun b trace s) (operations : NoSignIn trace) : Lasts trace s := by
  refine run.history ?_ ?_ operations
  · intro _
    exact ⟨sound_start, by simp [Boot.start], by simp⟩
  · intro tr s a s' _ ih hstep hno
    have hlasts := ih fun e he => hno e (List.mem_append_left _ he)
    have hsheds := hlasts.sheds hstep
    have hcover : Covering Ground.Lasting ⟨s, a, s'⟩ := by
      intro t ev htc g hlasting _ hunswept
      obtain ⟨i, w, task, app, -, ht, hmade⟩ := taskCall_eq_some htc
      have ht := List.mem_of_getElem? ht
      obtain ⟨hamong, -, -⟩ := (hlasts.sound.pays t ht).step s.app.imports hmade
      have hpurge := (hamong.not_renews (hlasts.renews t ht)).2
      generalize ev.call = c at hunswept hpurge
      cases hunswept with
      | purged => exact hpurge rfl
      | unread => exact hlasting _ _ rfl
    have hlast : (⟨s, a, s'⟩ : Entry Proxy Act) ∈ tr ++ [⟨s, a, s'⟩] := by simp
    refine ⟨hlasts.sound.step hstep hcover, renews_of_step hstep hlasts.renews (hno _ hlast), ?_⟩
    intro e he g hlasting hpre hpost
    rcases List.mem_append.1 he with he | he
    · exact (hlasts.spent e he g hlasting hpre hpost).sheds hsheds
    · rw [List.mem_singleton.1 he] at hpre hpost
      exact Ground.spent_of_lost hlasting hpre hpost hsheds

/-- A connection ends with its sign-in and with its server: once every request that takes access
away has returned, if one of them deleted the sign-in session the connection was opened under or
the server it was admitted to, the connection was refused at admission or was sent its cancel
signal. -/
theorem connection_ends_with_grounds (run : ProxyRun b trace s) (operations : NoSignIn trace)
    (returned : s.Returned) {id : Nat} {x : Session} (session : s.sessions[id]? = some x) (decided : x.phase.Decided)
    (deleted : ∃ e ∈ trace, ∃ g ∈ x.openedOn, g.Holds e.pre.app.store ∧ ¬ g.Holds e.post.app.store) :
    (∃ r, x.phase = .refused r) ∨ s.app.live.fired id = true := by
  have hlasts := lasts_of_run run operations
  obtain ⟨e, he, g, hg, hpre, hpost⟩ := deleted
  cases htarget : x.phase.target? with
  | none =>
    left
    cases hphase : x.phase with
    | refused r => exact ⟨r, rfl⟩
    | upgraded | admitting t | closed =>
      rw [hphase] at decided
      exact decided.elim
    | admitted target | opening target i | established target =>
      rw [hphase] at htarget
      cases htarget
  | some target =>
    right
    have hmem : g.Lasting ∧ g ∈ stakes x.user x.tokenHash target := by
      rw [Session.openedOn, htarget] at hg
      simp only [Option.map_some, Option.toList_some, List.mem_cons, List.not_mem_nil, or_false] at hg
      rcases hg with rfl | rfl <;> simp [stakes, Ground.Lasting]
    obtain ⟨l, -, hbacked⟩ := (hlasts.sound.upheld id x session).stays htarget
    rcases hbacked g hmem.2 hmem.1 with hholds | hfired | howed
    · exact absurd hholds (hlasts.spent e he g hmem.1 hpre hpost).not_holds
    · exact hfired
    · exact absurd howed (hlasts.sound.not_owed returned g)

/-! ### A user who signs out of a connection -/

/-- One user and an administrator, both signed in, with one server. -/
def oneServer : Store where
  users := (Table.empty.insert (fun id => ({ id, username := ['a'], sid := some ['S'], incarnation := 1 } : User))
    fun _ => rfl).insert (fun id => { id, username := ['b'], isAdmin := true, incarnation := 2 }) fun _ => rfl
  servers := Table.empty.insert (fun id => { id, name := ['v'], host := ['h'], port := 3389, incarnation := 3 })
    fun _ => rfl
  assignments := [(1, 1)]
  sessions := [⟨[1], 1, 0, 100⟩, ⟨[2], 2, 0, 100⟩]
  instanceId := some ['i']

/-- The user takes a ticket, and the connection is upgraded and admitted; the requests are the
tasks `i` and `i + 1`. -/
def admitOne (i : Nat) : List Act :=
  .request (.http (.connect [1] 1) (some ['i'])) :: calls i 9 { token := ['t'] } ++
  .request (.http (.wsUpgrade [1]) none) :: calls (i + 1) 5 ++
  .ask 0 ['1'] ['t'] :: List.replicate 11 (.admission 0 {})

def signOut : List Act := admitOne 0 ++ .request (.http (.logout [1]) none) :: calls 2 7

/-- What is looked at in the state a script leads to: its one connection, and that the requests
have returned. -/
def quietWith (p : Session → Bool) (s : Proxy) : Bool :=
  (s.tasks.all fun t => t.task.prog.result?.isSome) && s.sessions.length == 1 && s.sessions.all p

theorem returned_of_quietWith {p : Session → Bool} (h : quietWith p s = true) :
    s.Returned ∧ ∃ x, s.sessions[0]? = some x ∧ p x = true := by
  simp only [quietWith, Bool.and_eq_true, beq_iff_eq, List.all_eq_true] at h
  obtain ⟨⟨hreturned, hlength⟩, hp⟩ := h
  refine ⟨fun t ht _ => Option.isSome_iff_exists.1 (hreturned t ht), ?_⟩
  obtain ⟨x, hx⟩ := List.length_eq_one_iff.1 hlength
  exact ⟨x, by rw [hx]; rfl, hp x (by rw [hx]; exact List.mem_singleton_self x)⟩

theorem noSignIn_scripted {acts : List Act}
    (h : (acts.all fun a => match a with | .request r => !r.renews | _ => true) = true) :
    NoSignIn (scriptedProxy b acts) := by
  intro e he r hr
  have hmem := List.all_eq_true.1 h _ (label_mem_of_trace he)
  rw [hr] at hmem
  simpa using hmem

def Phase.isAdmitted : Phase → Bool
  | .admitted _ => true
  | _ => false

/-- The user signs out while connected. -/
theorem connection_ends_with_grounds_signOut : ∃ s x,
    ProxyRun { store := oneServer } (scriptedProxy { store := oneServer } signOut) s ∧ s.Returned ∧
    s.sessions[0]? = some x ∧ ((∃ r, x.phase = .refused r) ∨ s.app.live.fired 0 = true) := by
  obtain ⟨s, run, hs⟩ := scriptedProxy_run { store := oneServer } signOut
    (quietWith fun x => x.tokenHash == [1] && x.user.id == 1 && x.phase.isAdmitted) (by decide +kernel)
  obtain ⟨hreturned, x, hx, hp⟩ := returned_of_quietWith hs
  simp only [Phase.isAdmitted, Bool.and_eq_true, beq_iff_eq] at hp
  refine ⟨s, x, run, hreturned, hx, connection_ends_with_grounds run ?_ hreturned hx ?_ ?_⟩
  · exact noSignIn_scripted (by decide +kernel)
  · split at hp
    · rename_i hphase
      rw [hphase]
      exact trivial
    · exact Bool.noConfusion hp.2
  · have hgone : (scriptedProxy { store := oneServer } signOut).any (fun e =>
        decide ((Ground.signIn [1] 1).Holds e.pre.app.store) &&
          !decide ((Ground.signIn [1] 1).Holds e.post.app.store)) =
        true := by decide +kernel
    obtain ⟨e, he, hlost⟩ := List.any_eq_true.1 hgone
    refine ⟨e, he, .signIn [1] 1, ?_, by simpa using hlost⟩
    rw [Session.openedOn, hp.1.1, hp.1.2]
    exact List.mem_cons_self

/-! ## Assignments -/

/-- A change of a user's assignments takes away only what its request had read of them. -/
def ReadBefore (e : Entry Proxy Act) : Prop :=
  ∀ t ev, taskCall e = some (t, ev) → ∀ userId ids, ev.call = .setAssignments userId ids →
    ∀ serverId, (userId, serverId) ∈ e.pre.app.store.assignments → serverId ∉ ids → serverId ∈ t.owing.before

def Ground.Assigned (g : Ground) : Prop := ∃ userId serverId, g = .assignment userId serverId

theorem ReadBefore.covering {e : Entry Proxy Act} (h : ReadBefore e) : Covering Ground.Assigned e := by
  rintro t ev htc g ⟨userId, serverId, rfl⟩ hholds hunswept
  generalize hc : ev.call = c at hunswept
  cases hunswept with
  | unread gone unread => exact unread (h t ev htc userId _ hc serverId hholds gone)

/-- Removing an assignment ends its connections, in every run in which no change of a user's
assignments takes away one that its request had not read: once every request that takes access away
has returned, an admitted connection that was not sent its cancel signal is to a server that is
assigned to its user. -/
theorem admitted_assigned (run : ProxyRun b trace s) (read : ∀ e ∈ trace, ReadBefore e) (returned : s.Returned)
    {id : Nat} {x : Session} {target : Server} (session : s.sessions[id]? = some x)
    (admitted : x.phase.target? = some target) (live : s.app.live.fired id = false) :
    (x.user.id, target.id) ∈ s.app.store.assignments := by
  have hsound := sound_of_run run fun e he => (read e he).covering
  obtain ⟨l, -, hbacked⟩ := (hsound.upheld id x session).stays admitted
  have hstake : Ground.assignment x.user.id target.id ∈ stakes x.user x.tokenHash target := by simp [stakes]
  rcases hbacked _ hstake ⟨_, _, rfl⟩ with hholds | hfired | howed
  · exact hholds
  · exact absurd (live.symm.trans hfired) Bool.false_ne_true
  · exact absurd howed (hsound.not_owed returned _)

theorem readBefore_of_all {trace : ProxyTrace}
    (h : (trace.all fun e => match taskCall e with
      | some (t, ⟨.setAssignments userId ids, _⟩) => e.pre.app.store.assignments.all fun a =>
          a.1 != userId || ids.contains a.2 || t.owing.before.contains a.2
      | _ => true) = true) : ∀ e ∈ trace, ReadBefore e := by
  intro e he t ev htc userId ids hc serverId hassigned hgone
  have he := List.all_eq_true.1 h e he
  obtain ⟨c, a⟩ := ev
  obtain rfl : c = .setAssignments userId ids := hc
  simp only [htc] at he
  have hread := List.all_eq_true.1 he _ hassigned
  simpa [hgone] using hread

def twoAssigned : Boot where
  store := { oneServer with
    servers := oneServer.servers.insert
      (fun id => { id, name := ['w'], host := ['h'], port := 3389, incarnation := 4 }) fun _ => rfl
    assignments := [(1, 1), (1, 2)] }

/-- A connected user is left with the server, and another is taken away. -/
def leftWithOne : List Act :=
  admitOne 0 ++ .request (.http (.setUserServers [2] 1 [1]) (some ['i'])) :: calls 2 12

/-- The user keeps the connection to the server they are left with. -/
theorem admitted_assigned_leftWithOne : ∃ s x target, ProxyRun twoAssigned (scriptedProxy twoAssigned leftWithOne) s ∧
    s.app.store.assignments = [(1, 1)] ∧ s.Returned ∧ s.sessions[0]? = some x ∧ x.phase = .admitted target ∧
    s.app.live.fired 0 = false ∧ (x.user.id, target.id) ∈ s.app.store.assignments := by
  obtain ⟨s, run, hs⟩ := scriptedProxy_run twoAssigned leftWithOne
    (fun s => s.app.store.assignments == [(1, 1)] && !s.app.live.fired 0 && quietWith (·.phase.isAdmitted) s)
    (by decide +kernel)
  rw [Bool.and_eq_true, Bool.and_eq_true, beq_iff_eq, Bool.not_eq_true'] at hs
  obtain ⟨⟨hleft, hlive⟩, hquiet⟩ := hs
  obtain ⟨hreturned, x, hx, hp⟩ := returned_of_quietWith hquiet
  unfold Phase.isAdmitted at hp
  split at hp
  · rename_i target hphase
    refine ⟨s, x, target, run, hleft, hreturned, hx, hphase, hlive, ?_⟩
    exact admitted_assigned run (readBefore_of_all (by decide +kernel)) hreturned hx (by rw [hphase]; rfl) hlive
  · exact Bool.noConfusion hp

def unassigned : Store := { oneServer with assignments := [] }

/-- Two changes of one user's servers overlap: the first reads that the user has none and is
overtaken by the second, which assigns a server; the user connects to it; the first then takes the
server away, and ends no connection, since it had not read the server. -/
def overtaken : List Act :=
  .request (.http (.setUserServers [2] 1 []) (some ['i'])) :: calls 0 7 ++
  .request (.http (.setUserServers [2] 1 [1]) (some ['i'])) :: calls 1 11 ++ admitOne 2 ++ calls 0 4

/-- A user stays connected to a server they are no longer assigned. -/
theorem admitted_unassigned : ∃ s x target,
    ProxyRun { store := unassigned } (scriptedProxy { store := unassigned } overtaken) s ∧
    s.Returned ∧ s.sessions[0]? = some x ∧ x.phase = .admitted target ∧ s.app.live.fired 0 = false ∧
    (x.user.id, target.id) ∉ s.app.store.assignments := by
  obtain ⟨s, run, hs⟩ := scriptedProxy_run { store := unassigned } overtaken
    (fun s => !s.app.live.fired 0 && s.app.store.assignments.isEmpty &&
      quietWith (·.phase.isAdmitted) s) (by decide +kernel)
  rw [Bool.and_eq_true, Bool.and_eq_true, Bool.not_eq_true', List.isEmpty_iff] at hs
  obtain ⟨⟨hlive, hnone⟩, hquiet⟩ := hs
  obtain ⟨hreturned, x, hx, hp⟩ := returned_of_quietWith hquiet
  unfold Phase.isAdmitted at hp
  split at hp
  · rename_i target hphase
    exact ⟨s, x, target, run, hreturned, hx, hphase, hlive, by simp [hnone]⟩
  · exact Bool.noConfusion hp

end WebAccess
