/-
The invariant of the access protocol. Every connection that has not been refused or closed has an
entry in the registry that shows what it stands on, and each fact it stands on is in the tables,
or the connection has been ended, or some request still owes a sweep that will end it. An admission
checks before it stands, a deletion owes before it is seen, and a sweep pays only by ending: so the
invariant is kept by every step that takes no fact away without making a sweep due.
-/
import WebAccess.Serve.Losses

namespace WebAccess

open Codec Wire Process Transition

/-! ## What requests owe and what connections stand on -/

def Running.owing (t : Running) : Owing := Sweeping.after {} t.task.made

def Request.revokes (r : Request) : Bool := r.footprint.contains .revoke || r.footprint.contains .swap

/-- Some request owes a sweep that covers the fact. -/
def Owed (tasks : List Running) (g : Ground) : Prop :=
  ∃ (i : Nat) (t : Running), tasks[i]? = some t ∧ ∃ v ∈ t.owing.owed, v.Covers g

/-- What a connection stands on by now; nothing once it is refused or closed. -/
def Session.standing (id : Nat) (x : Session) : Option Standing :=
  match x.phase with
  | .upgraded => some {}
  | .admitting t => some ((Admitting id x.user x.tokenHash).after {} t.made)
  | .admitted target | .opening target _ | .established target =>
    some ⟨some target.id, stakes x.user x.tokenHash target⟩
  | .refused _ | .closed => none

/-- The entry of a connection shows what the connection stands on, and has its sender until the
connection is ended. -/
structure Entered (live : LiveSessions) (id : Nat) (user : User) (tokenHash : Bytes) (q : Standing) (l : Live) :
    Prop where
  entry : live.inner id = some l
  user : l.userId = user.id
  token : l.tokenHash = tokenHash
  server : l.serverId = q.server
  cancel : l.cancel = !live.fired id
  stands : ∀ g ∈ q.grounds, l.StandsOn g

/-- The fact is there, or the connection has been ended, or it will be. -/
def Backed (app : App) (owed : Ground → Prop) (id : Nat) (g : Ground) : Prop :=
  g.Holds app.store ∨ app.live.fired id = true ∨ owed g

/-- A connection is entered, and every fact of the kind `K` it stands on is backed. -/
def Upheld (K : Ground → Prop) (app : App) (owed : Ground → Prop) (id : Nat) (x : Session) : Prop :=
  ∀ q, x.standing id = some q → (∃ l, Entered app.live id x.user x.tokenHash q l) ∧
    ∀ g ∈ q.grounds, K g → Backed app owed id g

/-- A request stays within its footprint, pays before it returns, and owes only if it takes access
away. -/
structure Pays (t : Running) : Prop where
  within : t.Within
  obeys : t.task.Obeys Sweeping {} Settled
  quiet : t.request.revokes = false → t.owing.owed = []

/-- Numbers that have not been given out have no entry, and nothing was sent to them. -/
def Fresh (live : LiveSessions) : Prop := ∀ id, live.next ≤ id → live.inner id = none ∧ live.fired id = false

/-- The invariant, for the facts of the kind `K`. -/
structure Sound (K : Ground → Prop) (s : Proxy) : Prop where
  numbered : s.app.live.next = s.sessions.length
  fresh : Fresh s.app.live
  pays : ∀ t ∈ s.tasks, Pays t
  admits : ∀ (id : Nat) x t, s.sessions[id]? = some x → x.phase = .admitting t →
    t.Obeys (Admitting id x.user x.tokenHash) {} (Standing.Admits x.user x.tokenHash)
  upheld : ∀ (id : Nat) x, s.sessions[id]? = some x → Upheld K s.app (Owed s.tasks) id x

/-- The step takes no fact of the kind `K` away without making a sweep due. -/
def Covering (K : Ground → Prop) (e : Entry Proxy Act) : Prop :=
  ∀ t ev, taskCall e = some (t, ev) → ∀ g, K g → g.Holds e.pre.app.store → ¬ Unswept t.owing.before ev.call g

/-! ## Owing -/

section Owing

variable {q : Owing} {e : Event Api} {v : Sweep}

theorem Owing.mem_next (h : v ∈ q.owed) : v ∈ (q.next e).owed ∨ e.call = .sweep v := by
  unfold Owing.next
  split
  · exact .inl h
  · rename_i w _
    by_cases hw : v = w
    · exact .inr (by rw [hw])
    · exact .inl (by simpa [h] using hw)
  · exact .inl (List.mem_append_left _ h)

theorem Owing.mem_next_of_due (h : v ∈ due q.before e) : v ∈ (q.next e).owed := by
  unfold Owing.next
  split
  · simp [due] at h
  · simp [due] at h
  · exact List.mem_append_right _ h

theorem due_eq_nil {before : List Int} (hrevoke : e.call.tag ≠ .revoke) (hswap : e.call.tag ≠ .swap) :
    due before e = [] := by
  unfold due
  split <;> first | rfl | exact absurd rfl hrevoke | exact absurd rfl hswap

theorem Owing.next_owed (h : q.owed = []) (hrevoke : e.call.tag ≠ .revoke) (hswap : e.call.tag ≠ .swap) :
    (q.next e).owed = [] := by
  unfold Owing.next
  split
  · exact h
  · simp [h]
  · simp [h, due_eq_nil hrevoke hswap]

end Owing

theorem Call.among.tag_ne {tags : List Tag} {c : Call} {tag : Tag} (h : c.among tags)
    (hnot : tags.contains tag = false) (hlook : tag ≠ .look) : c.tag ≠ tag := by
  rintro rfl
  rw [Call.among, List.contains_iff_mem, List.mem_cons] at h
  rw [List.contains_eq_mem, decide_eq_false_iff_not] at hnot
  exact h.elim hlook hnot

theorem Request.entry_not_mem (r : Request) : r.footprint.contains .entry = false := by
  cases r with
  | http r sent => cases r <;> rfl
  | _ => rfl

theorem Pays.start (r : Request) (seen : List Nat) : Pays (r.start seen) :=
  ⟨r.within_program, settled_program r, fun _ => rfl⟩

theorem Pays.step {t : Running} {m : Holder} {w : World} {app app' : App} {e : Event Api}
    {task : Task Api (ApiResult Reply)} (h : Pays t) (database : Nat)
    (hstep : t.task.step (App.serve m w) app = some (e, task, app')) :
    e.call.among t.request.footprint ∧ (t.went database e task).owing = t.owing.next e ∧
      Pays (t.went database e task) := by
  obtain ⟨hamong, hwithin⟩ := Task.step_makes h.within hstep
  obtain ⟨-, hafter, hobeys⟩ := h.obeys.step hstep
  refine ⟨hamong, hafter, hwithin, hobeys, fun hr => ?_⟩
  obtain ⟨hrevoke, hswap⟩ := Bool.or_eq_false_iff.1 hr
  refine (congrArg Owing.owed hafter).trans (Owing.next_owed (h.quiet hr) ?_ ?_)
  · exact hamong.tag_ne hrevoke nofun
  · exact hamong.tag_ne hswap nofun

/-! ## Numbers -/

namespace Fresh

variable {live : LiveSessions}

theorem register {userId : Int} {tokenHash : Bytes} {generation : Nat} (h : Fresh live) :
    Fresh (live.register userId tokenHash generation).2 := by
  intro id hid
  have hlt : live.next < id := hid
  exact ⟨(Function.update_of_ne hlt.ne' _ _).trans (h id hlt.le).1, (h id hlt.le).2⟩

theorem sweep {w : Sweep} (h : Fresh live) : Fresh (live.sweep w).2 := by
  intro id hid
  obtain ⟨hinner, hfired⟩ := h id hid
  simp [LiveSessions.sweep, LiveSessions.endWhere, hinner, hfired]

variable {id : Nat}

theorem modify {f : Live → Live} (h : Fresh live) : Fresh (live.modify id f) := by
  intro id' hid
  refine ⟨?_, (h id' hid).2⟩
  by_cases heq : id' = id
  · subst heq
    rw [LiveSessions.inner_modify, (h id' hid).1]
    rfl
  · rw [LiveSessions.inner_modify_of_ne _ _ heq, (h id' hid).1]

theorem remove (h : Fresh live) : Fresh (live.remove id).2 := by
  intro id' hid
  refine ⟨?_, (h id' hid).2⟩
  by_cases heq : id' = id
  · exact heq ▸ Function.update_self _ _ _
  · exact (Function.update_of_ne heq _ _).trans (h id' hid).1

end Fresh

/-! ## A connection others act beside -/

section Beside

variable {K : Ground → Prop} {app app' : App} {owed owed' : Ground → Prop} {id : Nat} {x : Session}

theorem Entered.congr {live live' : LiveSessions} {user : User} {tokenHash : Bytes} {q : Standing} {l : Live}
    (h : Entered live id user tokenHash q l) (hinner : live'.inner id = live.inner id)
    (hfired : live'.fired id = live.fired id) : Entered live' id user tokenHash q l where
  __ := h
  entry := hinner.trans h.entry
  cancel := hfired ▸ h.cancel

/-- A step that leaves the entry of a connection alone, and takes away no fact of the kind `K`
without making a sweep due. -/
theorem Upheld.beside (h : Upheld K app owed id x) (hinner : app'.live.inner id = app.live.inner id)
    (hfired : app'.live.fired id = app.live.fired id)
    (hback : ∀ g, K g → g.Holds app.store ∨ owed g → g.Holds app'.store ∨ owed' g) : Upheld K app' owed' id x := by
  intro q hq
  obtain ⟨⟨l, hl⟩, hbacked⟩ := h q hq
  refine ⟨⟨l, hl.congr hinner hfired⟩, fun g hg hK => ?_⟩
  rcases hbacked g hg hK with hholds | hended | howed
  · exact (hback g hK (.inl hholds)).imp_right .inr
  · exact .inr (.inl (hfired.trans hended))
  · exact (hback g hK (.inr howed)).imp_right .inr

theorem Upheld.sweep {w : Sweep} (h : Upheld K app owed id x) (hstore : app'.store = app.store)
    (hlive : app'.live = (app.live.sweep w).2) (howed : ∀ g, owed g → owed' g ∨ w.Covers g) :
    Upheld K app' owed' id x := by
  intro q hq
  obtain ⟨⟨l, hl⟩, hbacked⟩ := h q hq
  have hfired := LiveSessions.fired_sweep (w := w) hl.entry
  rw [← hlive] at hfired
  refine ⟨⟨if w.hits l then { l with cancel := false } else l, ?_⟩, fun g hg hK => ?_⟩
  · have hentry := LiveSessions.inner_sweep (w := w) hl.entry
    rw [← hlive] at hentry
    cases hw : w.hits l with
    | false =>
      simp only [hw, Bool.false_eq_true, if_false, Bool.false_and, Bool.or_false] at hentry hfired ⊢
      exact { hl with entry := hentry, cancel := hfired ▸ hl.cancel }
    | true =>
      simp only [hw, if_true, Bool.true_and] at hentry hfired ⊢
      refine ⟨hentry, hl.user, hl.token, hl.server, ?_, fun g hg => ?_⟩
      · rw [hfired, hl.cancel]
        simp
      · have hstands := hl.stands g hg
        cases g <;> exact hstands
  · rcases hbacked g hg hK with hholds | hended | hg'
    · exact .inl (hstore ▸ hholds)
    · exact .inr (.inl (by rw [hfired, hended, Bool.true_or]))
    · rcases howed g hg' with howed' | hcovers
      · exact .inr (.inr howed')
      · refine .inr (.inl ?_)
        rw [hfired, Sweep.hits_of_covers hcovers (hl.stands g hg), hl.cancel]
        simp

end Beside

/-! ## A call of a request -/

section Call

variable {K : Ground → Prop} {s : Proxy} {i : Nat} {w : World} {t t' : Running} {e : Event Api} {app : App}
  {tasks : List Running} {g : Ground}

theorem lt_of_running (ht : tasks[i]? = some t) : i < tasks.length := (List.getElem?_eq_some_iff.1 ht).1

theorem Owed.append (h : Owed tasks g) (more : List Running) : Owed (tasks ++ more) g := by
  obtain ⟨j, u, hu, howed⟩ := h
  exact ⟨j, u, (List.getElem?_append_left (lt_of_running hu)).trans hu, howed⟩

theorem Owed.set (ht : tasks[i]? = some t) (hnext : t'.owing = t.owing.next e) (h : Owed tasks g) :
    Owed (tasks.set i t') g ∨ ∃ v, e.call = .sweep v ∧ v.Covers g := by
  obtain ⟨j, u, hu, v, hv, hcovers⟩ := h
  by_cases hij : i = j
  · subst hij
    obtain rfl : t = u := Option.some_inj.1 (ht.symm.trans hu)
    refine (Owing.mem_next (e := e) hv).imp (fun hv => ?_) fun hsweep => ⟨v, hsweep, hcovers⟩
    exact ⟨i, t', List.getElem?_set_self (lt_of_running ht), v, hnext ▸ hv, hcovers⟩
  · exact .inl ⟨j, u, (List.getElem?_set_ne hij).trans hu, v, hv, hcovers⟩

theorem owed_of_due (ht : tasks[i]? = some t) (hnext : t'.owing = t.owing.next e) {v : Sweep}
    (hv : v ∈ due t.owing.before e) (hcovers : v.Covers g) : Owed (tasks.set i t') g :=
  ⟨i, t', List.getElem?_set_self (lt_of_running ht), v, hnext ▸ Owing.mem_next_of_due hv, hcovers⟩

def Call.enters (c : Call) : Bool := c.tag == .sweep || c.tag == .register || c.tag == .entry

variable {m : Holder} {id : Nat} {x : Session} {task : Task Api (ApiResult Reply)}

theorem live_answer {c : Call} {a : App} (hc : c.enters = false) : (App.answer m w c a).2.live = a.live := by
  cases c <;> first | exact Bool.noConfusion hc | rfl

variable {database : Nat}

theorem spawned_eq_nil (he : e.call.enters = false) : spawned database e = [] := by
  obtain ⟨c, a⟩ := e
  cases c <;> first | exact Bool.noConfusion he | rfl

theorem sessions_spawned (h : (s.sessions ++ spawned database e)[id]? = some x) :
    s.sessions[id]? = some x ∨ ∃ user tokenHash a, e = ⟨.register user tokenHash, a⟩ ∧
      id = s.sessions.length ∧ x = { user, tokenHash, database, seen := [database] } := by
  rcases Nat.lt_or_ge id s.sessions.length with hid | hid
  · rw [List.getElem?_append_left hid] at h
    exact .inl h
  · rw [List.getElem?_append_right hid] at h
    unfold spawned at h
    split at h
    · rename_i user tokenHash a
      obtain ⟨hlt, hx⟩ := List.getElem?_eq_some_iff.1 h
      simp only [List.length_singleton] at hlt
      refine .inr ⟨user, tokenHash, a, rfl, by omega, ?_⟩
      simpa using hx.symm
    · cases h

theorem Upheld.call (h : Upheld K s.app (Owed s.tasks) id x) (hid : id < s.app.live.next) (ht : s.tasks[i]? = some t)
    (hpays : Pays t) (hmade : t.task.step (App.serve (.task i) w) s.app = some (e, task, app))
    (hcover : ∀ g, K g → g.Holds s.app.store → ¬ Unswept t.owing.before e.call g) :
    Upheld K app (Owed (s.tasks.set i (t.went s.app.imports e task))) id x := by
  obtain ⟨hamong, hnext, -⟩ := hpays.step s.app.imports hmade
  obtain ⟨-, hans, rfl⟩ := App.served hmade
  obtain ⟨c, ans⟩ := e
  obtain rfl : ans = (App.answer (.task i) w c s.app).1 := hans
  have hholds : ∀ g, K g → g.Holds s.app.store → g.Holds (App.answer (.task i) w c s.app).2.store ∨
      Owed (s.tasks.set i (t.went s.app.imports ⟨c, (App.answer (.task i) w c s.app).1⟩ task)) g := by
    intro g hK hg
    rcases holds_or_due (m := .task i) (w := w) t.owing.before c hg with hg | ⟨v, hv, hcovers⟩ | hlost
    · exact .inl hg
    · exact .inr (owed_of_due ht hnext hv hcovers)
    · exact absurd hlost (hcover g hK hg)
  -- unless the call is a sweep, whatever was owed still is
  have hback : (∀ v, c ≠ .sweep v) → ∀ g, K g → g.Holds s.app.store ∨ Owed s.tasks g →
      g.Holds (App.answer (.task i) w c s.app).2.store ∨
      Owed (s.tasks.set i (t.went s.app.imports ⟨c, (App.answer (.task i) w c s.app).1⟩ task)) g := by
    intro hc g hK hg
    rcases hg with hg | hg
    · exact hholds g hK hg
    · rcases hg.set ht hnext with hg | ⟨v, hv, -⟩
      · exact .inr hg
      · exact absurd hv (hc v)
  cases hc : c.enters with
  | false =>
    have hlive := live_answer (m := .task i) (w := w) (a := s.app) hc
    refine h.beside (by rw [hlive]) (by rw [hlive]) (hback ?_)
    rintro v rfl
    exact Bool.noConfusion hc
  | true =>
    have hentry := hamong.tag_ne t.request.entry_not_mem nofun
    cases c with
    | sweep v =>
      refine h.sweep rfl rfl fun g hg => (hg.set ht hnext).imp_right ?_
      rintro ⟨v', hv, hcovers⟩
      cases hv
      exact hcovers
    | register =>
      refine h.beside ?_ rfl (hback nofun)
      exact Function.update_of_ne hid.ne _ _
    | setServer | setIncarnations => exact absurd rfl hentry
    | _ => exact Bool.noConfusion hc

theorem Upheld.registered {user : User} {tokenHash : Bytes} {seen : List Nat} {owed : Ground → Prop} (a : App)
    (hfired : a.live.fired a.live.next = false) :
    Upheld K (App.answer m w (.register user tokenHash) a).2 owed a.live.next { user, tokenHash, database, seen } := by
  intro q hq
  obtain rfl : {} = q := Option.some_inj.1 hq
  refine ⟨⟨{ userId := user.id, tokenHash, generation := a.generation }, ?_⟩, by simp⟩
  exact ⟨Function.update_self _ _ _, rfl, rfl, rfl, by simp [App.answer, App.writeLive, LiveSessions.register, hfired],
    by simp⟩

theorem Sound.call (h : Sound K s) (ht : s.tasks[i]? = some t)
    (hmade : t.task.step (App.serve (.task i) w) s.app = some (e, task, app))
    (hcover : ∀ g, K g → g.Holds s.app.store → ¬ Unswept t.owing.before e.call g) :
    Sound K ⟨app, s.tasks.set i (t.went s.app.imports e task), s.sessions ++ spawned s.app.imports e⟩ := by
  have hpays := h.pays t (List.mem_of_getElem? ht)
  obtain ⟨hamong, -, hpays'⟩ := hpays.step s.app.imports hmade
  obtain ⟨-, -, happ⟩ := App.served hmade
  have hnumber : app.live.next = (s.sessions ++ spawned s.app.imports e).length ∧ Fresh app.live := by
    have hentry := hamong.tag_ne t.request.entry_not_mem nofun
    obtain ⟨c, ans⟩ := e
    subst happ
    cases hc : c.enters with
    | false =>
      rw [live_answer hc, spawned_eq_nil hc, List.append_nil]
      exact ⟨h.numbered, h.fresh⟩
    | true =>
      cases c with
      | sweep v => exact ⟨(List.append_nil s.sessions).symm ▸ h.numbered, h.fresh.sweep⟩
      | register =>
        refine ⟨?_, h.fresh.register⟩
        rw [List.length_append, ← h.numbered]
        rfl
      | setServer | setIncarnations => exact absurd rfl hentry
      | _ => exact Bool.noConfusion hc
  refine ⟨hnumber.1, hnumber.2, fun u hu => ?_, fun id x task' hx hphase => ?_, fun id x hx => ?_⟩
  · rcases List.mem_or_eq_of_mem_set hu with hu | rfl
    · exact h.pays u hu
    · exact hpays'
  · rcases sessions_spawned hx with hx | ⟨user, tokenHash, a, -, -, rfl⟩
    · exact h.admits id x task' hx hphase
    · cases hphase
  · rcases sessions_spawned hx with hx | ⟨user, tokenHash, a, rfl, rfl, rfl⟩
    · have hid : id < s.app.live.next := h.numbered ▸ (List.getElem?_eq_some_iff.1 hx).1
      exact (h.upheld id x hx).call hid ht hpays hmade hcover
    · rw [happ, ← h.numbered]
      exact Upheld.registered (m := .task i) (w := w) s.app (h.fresh _ le_rfl).2

theorem Sound.spawn {more : List Running} (h : Sound K s) (hmore : ∀ t ∈ more, Pays t) : Sound K (s.spawn more) := by
  refine { h with pays := fun t ht => ?_, upheld := fun id x hx => ?_ }
  · exact (List.mem_append.1 ht).elim (h.pays t) (hmore t)
  · exact (h.upheld id x hx).beside rfl rfl fun g _ hg => hg.imp_right fun howed => howed.append _

end Call

/-! ## A step of a connection -/

section Connection

variable {K : Ground → Prop} {s : Proxy} {id : Nat} {x : Session} {phase : Phase}

variable {app a : App} {user : User} {tokenHash : Bytes} {q : Standing} {l : Live} {owed : Ground → Prop}
  {target : Server} {c : Call} {m : Holder} {w : World}

theorem Sound.setPhase (h : Sound K s) (hstore : app.store = s.app.store) (hnext : app.live.next = s.app.live.next)
    (hfresh : Fresh app.live) (hfired : app.live.fired = s.app.live.fired)
    (hinner : ∀ id', id' ≠ id → app.live.inner id' = s.app.live.inner id')
    (hadmits : ∀ t, phase = .admitting t → t.Obeys (Admitting id x.user x.tokenHash) {}
      (Standing.Admits x.user x.tokenHash))
    (hupheld : Upheld K app (Owed s.tasks) id { x with phase }) : Sound K ({ s with app }.setPhase id x phase) := by
  refine ⟨?_, hfresh, h.pays, fun id' x' t hx' hphase => ?_, fun id' x' hx' => ?_⟩
  · exact hnext.trans (h.numbered.trans (List.length_set ..).symm)
  · rcases Proxy.sessions_setPhase hx' with ⟨rfl, rfl⟩ | ⟨-, hx'⟩
    · exact hadmits t hphase
    · exact h.admits id' x' t hx' hphase
  · rcases Proxy.sessions_setPhase hx' with ⟨rfl, rfl⟩ | ⟨hid, hx'⟩
    · exact hupheld
    · exact (h.upheld id' x' hx').beside (hinner id' hid) (congrFun hfired id') fun _ _ hg => hstore ▸ hg

variable {live : LiveSessions} {i : Nat} {s' : Proxy}

theorem Entered.modify {f : Live → Live} (h : Entered live id user tokenHash q l) (huser : (f l).userId = l.userId)
    (htoken : (f l).tokenHash = l.tokenHash) (hserver : (f l).serverId = l.serverId)
    (hcancel : (f l).cancel = l.cancel) : Entered (live.modify id f) id user tokenHash q (f l) where
  entry := by rw [LiveSessions.inner_modify, h.entry]; rfl
  user := huser.trans h.user
  token := htoken.trans h.token
  server := hserver.trans h.server
  cancel := hcancel.trans h.cancel
  stands g hg := by
    have hstands := h.stands g hg
    cases g <;> simp only [Live.StandsOn, huser, htoken, hserver] at hstands ⊢ <;> exact hstands

theorem Upheld.moved {q' : Standing}
    (hq' : ∀ q, ({ x with phase } : Session).standing id = some q → q.server = q'.server ∧
      ∀ g ∈ q.grounds, g ∈ q'.grounds)
    (hentered : Entered app.live id x.user x.tokenHash q' l) (hbacked : ∀ g ∈ q'.grounds, K g → Backed app owed id g) :
    Upheld K app owed id { x with phase } := by
  intro q hq
  obtain ⟨hserver, hgrounds⟩ := hq' q hq
  refine ⟨⟨l, ?_⟩, fun g hg => hbacked g (hgrounds g hg)⟩
  exact { hentered with
    server := hentered.server.trans hserver.symm
    stands := fun g hg => hentered.stands g (hgrounds g hg) }

theorem Upheld.over (hphase : (∃ r, phase = .refused r) ∨ phase = .closed) : Upheld K app owed id { x with phase } := by
  intro q hq
  rcases hphase with ⟨r, rfl⟩ | rfl <;> cases hq

theorem Sound.ask {targetId proxyAuth : Text} (h : Sound K s) (hx : s.sessions[id]? = some x)
    (hphase : x.phase = .upgraded) :
    Sound K (s.setPhase id x (.admitting { prog := admitSession id x.user x.tokenHash targetId proxyAuth })) := by
  obtain ⟨⟨l, hl⟩, hbacked⟩ := h.upheld id x hx {} (by simp [Session.standing, hphase])
  refine h.setPhase rfl rfl h.fresh rfl (fun _ _ => rfl) ?_ (Upheld.moved ?_ hl hbacked)
  · rintro t ⟨⟩
    exact admitting_admit targetId proxyAuth
  · rintro q ⟨⟩
    exact ⟨rfl, fun g hg => hg⟩

theorem Sound.superseded (h : Sound K s) : Sound K (s.setPhase id x (.refused .superseded)) :=
  h.setPhase rfl rfl h.fresh rfl (fun _ _ => rfl) nofun (Upheld.over (.inl ⟨_, rfl⟩))

theorem Sound.close (h : Sound K s) : Sound K ((s.setLive (s.app.live.remove id).2).setPhase id x .closed) :=
  h.setPhase rfl rfl h.fresh.remove rfl (fun _ hid => Function.update_of_ne hid _ _) nofun (Upheld.over (.inr rfl))

theorem Upheld.stays (h : Upheld K s.app (Owed s.tasks) id x) (hphase : x.phase.target? = some target) :
    ∃ l, Entered s.app.live id x.user x.tokenHash ⟨some target.id, stakes x.user x.tokenHash target⟩ l ∧
      ∀ g ∈ stakes x.user x.tokenHash target, K g → Backed s.app (Owed s.tasks) id g := by
  have hstanding : x.standing id = some ⟨some target.id, stakes x.user x.tokenHash target⟩ := by
    unfold Session.standing
    cases hx : x.phase <;> rw [hx] at hphase <;> cases hphase <;> rfl
  obtain ⟨⟨l, hl⟩, hbacked⟩ := h _ hstanding
  exact ⟨l, hl, hbacked⟩

theorem Sound.opens (h : Sound K s) (hx : s.sessions[id]? = some x) (hphase : x.phase = .admitted target) :
    Sound K (s.setPhase id x (.opening target i)) := by
  obtain ⟨l, hl, hbacked⟩ := (h.upheld id x hx).stays (by rw [hphase]; rfl)
  refine h.setPhase rfl rfl h.fresh rfl (fun _ _ => rfl) nofun (Upheld.moved ?_ hl hbacked)
  rintro q ⟨⟩
  exact ⟨rfl, fun g hg => hg⟩

theorem Sound.established (h : Sound K s) (hx : s.sessions[id]? = some x) (hphase : x.phase = .opening target i) :
    Sound K ((s.setLive (s.app.live.setEstablished id)).setPhase id x (.established target)) := by
  obtain ⟨l, hl, hbacked⟩ := (h.upheld id x hx).stays (by rw [hphase]; rfl)
  have hl' := hl.modify (f := fun l => { l with established := true }) rfl rfl rfl rfl
  refine h.setPhase rfl rfl h.fresh.modify rfl (fun _ hid => LiveSessions.inner_modify_of_ne _ _ hid) nofun
    (Upheld.moved ?_ hl' hbacked)
  rintro q ⟨⟩
  exact ⟨rfl, fun g hg => hg⟩

/-! ### The calls of an admission -/

theorem Standing.allows.store_eq (h : q.allows id c) : (App.answer m w c a).2.store = a.store := by
  cases c <;> first | exact h.elim | rfl

theorem Standing.allows.live_eq (h : q.allows id c) :
    (∃ serverId, c = .setServer id serverId ∧ q.grounds = [] ∧
      (App.answer m w c a).2.live = a.live.setServer id serverId) ∨
    (∃ rows, c = .setIncarnations id rows ∧ (App.answer m w c a).2.live = a.live.setIncarnations id rows) ∨
    c.enters = false ∧ (App.answer m w c a).2.live = a.live := by
  cases c with
  | setServer id' serverId =>
    obtain ⟨rfl, hgrounds⟩ := h
    exact .inl ⟨serverId, rfl, hgrounds, rfl⟩
  | setIncarnations id' rows =>
    obtain rfl : id' = id := h
    exact .inr (.inl ⟨rows, rfl, rfl⟩)
  | _ => first | exact h.elim | exact .inr (.inr ⟨rfl, rfl⟩)

theorem Standing.allows.live_frame (h : q.allows id c) (hfresh : Fresh a.live) :
    (App.answer m w c a).2.live.next = a.live.next ∧ Fresh (App.answer m w c a).2.live ∧
      (App.answer m w c a).2.live.fired = a.live.fired ∧
      ∀ id', id' ≠ id → (App.answer m w c a).2.live.inner id' = a.live.inner id' := by
  rcases h.live_eq (m := m) (w := w) (a := a) with ⟨_, -, -, hlive⟩ | ⟨_, -, hlive⟩ | ⟨-, hlive⟩ <;> rw [hlive]
  · exact ⟨rfl, hfresh.modify, rfl, fun _ hid => LiveSessions.inner_modify_of_ne _ _ hid⟩
  · exact ⟨rfl, hfresh.modify, rfl, fun _ hid => LiveSessions.inner_modify_of_ne _ _ hid⟩
  · exact ⟨rfl, hfresh, rfl, fun _ _ => rfl⟩

theorem Standing.holds_found (hl : Entered live id user tokenHash q l) {g : Ground}
    (hg : g ∈ q.found user tokenHash ⟨c, (App.answer m w c a).1⟩) : g.Holds a.store ∧ l.StandsOn g := by
  cases c with
  | sessionUser tokenHash' =>
    cases hu : a.store.sessionUser tokenHash' w.now with
    | none => simp [found, App.answer, hu] at hg
    | some u =>
      simp only [found, App.answer, hu] at hg
      split at hg
      · rename_i hsame
        obtain rfl := List.mem_singleton.1 hg
        obtain ⟨r, hr, htoken, hid⟩ := Store.sessionUser_eq_some hu
        exact ⟨⟨r, hr, htoken.trans hsame.1, hid.trans hsame.2⟩, hl.token, hl.user⟩
      · cases hg
  | serverById serverId =>
    cases hv : a.store.serverById serverId with
    | none => simp [found, App.answer, hv] at hg
    | some v =>
      simp only [found, App.answer, hv] at hg
      split at hg
      · rename_i hsame
        obtain rfl := List.mem_singleton.1 hg
        exact ⟨⟨v, (Store.serverById_eq_some hv).1, rfl⟩, hl.server.trans hsame⟩
      · cases hg
  | isAssigned userId serverId =>
    cases ha : a.store.isAssigned userId serverId with
    | false => simp [found, App.answer, ha] at hg
    | true =>
      simp only [found, App.answer, ha] at hg
      split at hg
      · rename_i hsame
        obtain rfl := List.mem_singleton.1 hg
        exact ⟨List.contains_iff_mem.1 ha, hl.user.trans hsame.1.symm, hl.server.trans hsame.2⟩
      · cases hg
  | _ => cases hg

theorem Entered.admission (hl : Entered a.live id user tokenHash q l) (hc : q.allows id c)
    (hbacked : ∀ g ∈ q.grounds, K g → Backed a owed id g) :
    ∃ l', Entered (App.answer m w c a).2.live id user tokenHash (q.next user tokenHash ⟨c, (App.answer m w c a).1⟩) l' ∧
      ∀ g ∈ (q.next user tokenHash ⟨c, (App.answer m w c a).1⟩).grounds, K g →
          Backed (App.answer m w c a).2 owed id g := by
  rcases hc.live_eq (m := m) (w := w) (a := a) with ⟨serverId, rfl, hgrounds, -⟩ | ⟨rows, rfl, -⟩ | ⟨henters, hlive⟩
  · have hnone : ∀ g, g ∉ (q.next user tokenHash ⟨.setServer id serverId, ()⟩).grounds := by
      simp [Standing.next, hgrounds]
    refine ⟨{ l with serverId := some serverId }, ⟨?_, hl.user, hl.token, rfl, hl.cancel, ?_⟩, ?_⟩
    · exact (LiveSessions.inner_modify _ _ _).trans (by rw [hl.entry]; rfl)
    · exact fun g hg => absurd hg (hnone g)
    · exact fun g hg => absurd hg (hnone g)
  · have hsame : q.next user tokenHash ⟨.setIncarnations id rows, ()⟩ = q := by
      simp [Standing.next, Standing.found]
    have hl' := hl.modify (f := fun l => { l with incarnations := some rows }) rfl rfl rfl rfl
    refine ⟨_, hsame.symm ▸ hl', fun g hg hK => ?_⟩
    exact hbacked g (hsame ▸ hg) hK
  · have hnext : q.next user tokenHash ⟨c, (App.answer m w c a).1⟩ =
        { q with grounds := q.grounds ++ q.found user tokenHash ⟨c, (App.answer m w c a).1⟩ } := by
      cases c <;> first | exact Bool.noConfusion henters | rfl
    have hmem : ∀ g ∈ q.grounds ++ q.found user tokenHash ⟨c, (App.answer m w c a).1⟩,
        l.StandsOn g ∧ (K g → Backed a owed id g) := by
      intro g hg
      rcases List.mem_append.1 hg with hg | hg
      · exact ⟨hl.stands g hg, hbacked g hg⟩
      · obtain ⟨hholds, hstands⟩ := Standing.holds_found hl hg
        exact ⟨hstands, fun _ => .inl hholds⟩
    rw [hnext]
    refine ⟨l, ?_, fun g hg hK => ?_⟩
    · exact { hl with
        entry := by rw [hlive, hl.entry], cancel := by rw [hlive, hl.cancel], stands := fun g hg => (hmem g hg).1 }
    · unfold Backed
      rw [hlive, hc.store_eq]
      exact (hmem g hg).2 hK

theorem Sound.admission {t t' : Task Api (Except Refusal Server)} {e : Event Api} {seen : List Nat} (h : Sound K s)
    (hx : s.sessions[id]? = some x) (hphase : x.phase = .admitting t)
    (hmade : t.step (App.serve m w) s.app = some (e, t', app)) :
    Sound K ({ s with app }.setPhase id { x with seen } (.ofTask t')) := by
  obtain ⟨⟨l, hl⟩, hbacked⟩ := h.upheld id x hx _ (by rw [Session.standing, hphase])
  obtain ⟨hallows, hafter, hobeys⟩ := (h.admits id x t hx hphase).step hmade
  have hallows : Standing.allows id _ e.call := hallows
  obtain ⟨-, hans, rfl⟩ := App.served hmade
  obtain ⟨c, ans⟩ := e
  obtain rfl : ans = (App.answer m w c s.app).1 := hans
  obtain ⟨l', hl', hbacked'⟩ := hl.admission (m := m) (w := w) hallows hbacked
  obtain ⟨hnext, hfresh, hfired, hinner⟩ := hallows.live_frame (m := m) (w := w) h.fresh
  refine h.setPhase hallows.store_eq hnext hfresh hfired hinner ?_ (Upheld.moved (fun q hq => ?_) hl' hbacked')
  · intro u hu
    unfold Phase.ofTask at hu
    split at hu <;> cases hu
    exact hobeys
  · unfold Phase.ofTask Session.standing at hq
    cases hprog : t'.prog with
    | call c' next =>
      rw [hprog] at hq
      cases hq
      exact ⟨congrArg Standing.server hafter, fun g hg => congrArg Standing.grounds hafter ▸ hg⟩
    | ret r =>
      have hadmits := hobeys.result (a := r) (by rw [hprog]; rfl)
      rw [hprog] at hq
      cases r with
      | error refusal => cases hq
      | ok target =>
        cases hq
        have hadmits : Standing.Admits x.user x.tokenHash _ _ := hadmits
        rw [hafter] at hadmits
        exact ⟨hadmits.1.symm, hadmits.2⟩

/-! ## Runs -/

theorem Sound.step {a : Act} (h : Sound K s) (hstep : s.step a = some s') (hcover : Covering K ⟨s, a, s'⟩) :
    Sound K s' := by
  cases Proxy.turn hstep with
  | request r =>
    refine h.spawn fun t ht => ?_
    rw [List.mem_singleton.1 ht]
    exact .start r []
  | call running made =>
    exact h.call running made (hcover _ _ (by simp [taskCall, running, made]))
  | ask session phase => exact h.ask session phase
  | admission session phase made => exact h.admission session phase made
  | @opens id x target addr session phase =>
    refine Sound.opens (s := s.spawn _) (h.spawn fun t ht => ?_) session phase
    rw [List.mem_singleton.1 ht]
    exact .start _ _
  | established session phase opened => exact h.established session phase
  | superseded => exact h.superseded
  | report =>
    refine h.spawn fun t ht => ?_
    rw [List.mem_singleton.1 ht]
    exact .start _ _
  | @close id x session =>
    have hclosed : Sound K ((s.setLive (s.app.live.remove id).2).setPhase id x .closed) := h.close
    refine Sound.spawn hclosed fun t ht => ?_
    obtain ⟨e, -, rfl⟩ := List.mem_map.1 ht
    exact .start _ _

theorem Sound.store_of_step {a : Act} (h : Sound K s) (hstep : s.step a = some s') :
    s'.app.store = s.app.store ∨ ∃ t ev m w, taskCall ⟨s, a, s'⟩ = some (t, ev) ∧ t ∈ s.tasks ∧
      ev.call.among t.request.footprint ∧ s'.app = (App.answer m w ev.call s.app).2 := by
  cases Proxy.turn hstep with
  | @call i w t e task app running made =>
    have ht := List.mem_of_getElem? running
    obtain ⟨hamong, -, -⟩ := (h.pays t ht).step s.app.imports made
    obtain ⟨-, -, happ⟩ := App.served made
    exact .inr ⟨t, e, _, w, by simp [taskCall, running, made], ht, hamong, happ⟩
  | @admission id w x t t' e app session phase made =>
    obtain ⟨hallows, -, -⟩ := (h.admits id x t session phase).step made
    obtain ⟨-, -, rfl⟩ := App.served made
    exact .inl (Standing.allows.store_eq hallows)
  | _ => exact .inl rfl

end Connection

section Run

variable {K : Ground → Prop} {b : Boot} {trace : ProxyTrace} {s : Proxy}

theorem sound_start : Sound K b.start where
  numbered := by rw [Boot.start, b.app_live]; rfl
  fresh _ _ := by rw [Boot.start, b.app_live]; exact ⟨rfl, rfl⟩
  pays := by simp [Boot.start]
  admits := by simp [Boot.start]
  upheld := by simp [Boot.start]

theorem sound_of_run (run : ProxyRun b trace s) (hcover : ∀ e ∈ trace, Covering K e) : Sound K s := by
  refine run.history (fun _ => sound_start) ?_ hcover
  intro tr s a s' _ ih hstep hcover
  exact (ih fun e he => hcover e (List.mem_append_left _ he)).step hstep (hcover _ (by simp))

/-- The requests that take access away have returned. -/
def Proxy.Returned (s : Proxy) : Prop :=
  ∀ t ∈ s.tasks, t.request.revokes = true → ∃ r, t.task.prog.result? = some r

theorem Sound.not_owed (h : Sound K s) (returned : s.Returned) (g : Ground) : ¬ Owed s.tasks g := by
  rintro ⟨i, t, ht, v, hv, -⟩
  have hpays := h.pays t (List.mem_of_getElem? ht)
  have hnone : t.owing.owed = [] := by
    cases hr : t.request.revokes with
    | false => exact hpays.quiet hr
    | true =>
      obtain ⟨r, hresult⟩ := returned t (List.mem_of_getElem? ht) hr
      exact hpays.obeys.result hresult
  simp [hnone] at hv

end Run

end WebAccess
