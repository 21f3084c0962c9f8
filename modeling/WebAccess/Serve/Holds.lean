/-
What the gate is good for. Every task and every admission uses the gate as its protocol says, so the
gate shows at least what each of them holds. While one of them holds it, no other is in a swap: the
generation is the number of the database in place, and both stay what they are.
-/
import WebAccess.Serve.Backing
import WebAccess.Serve.Gating

namespace WebAccess

open Codec Wire Process Transition

/-! ## Where everybody is -/

def Running.grip (t : Running) : Grip := Gripping.after ⟨none, .idle, t.request.trust⟩ t.task.made

abbrev Grip.away : Grip := ⟨none, .idle, .lost⟩

def Session.grip (id : Nat) (x : Session) : Grip :=
  match x.phase with
  | .admitting t => Gripping.after ⟨none, .idle, .before (.entry id)⟩ t.made
  | _ => .away

def Proxy.grip (s : Proxy) : Holder → Grip
  | .task i => (s.tasks[i]?.map Running.grip).getD .away
  | .session id => (s.sessions[id]?.map (Session.grip id)).getD .away

/-- What is known of the database in place. -/
def Trust.inPlace : Trust → Bool
  | now _ | mixed _ => true
  | _ => false

/-- Who is in a swap has the gate alone, who knows what is in place has the gate, and who has the gate
no longer tells of the past only. -/
structure Grip.Sound (q : Grip) : Prop where
  swap : q.stage ≠ .idle → q.held = some .exclusive
  trust : q.trust.inPlace = true → q.held ≠ none
  present : q.held ≠ none → ∀ o, q.trust ≠ .before o

section Grips

variable {q : Grip} {e : Event Api} {c : Call}

theorem Grip.Sound.start {trust : Trust} (h : trust.inPlace = false) : Grip.Sound ⟨none, .idle, trust⟩ :=
  ⟨fun h => absurd rfl h, fun htrust => absurd (htrust.symm.trans h) nofun, fun h => absurd rfl h⟩

theorem Grip.inPlace_next (h : (q.next e).trust.inPlace = true) (hc : ∀ hold, e.call ≠ .acquire hold) :
    q.trust.inPlace = true := by
  obtain ⟨c, a⟩ := e
  obtain ⟨held, stage, trust⟩ := q
  cases trust with
  | now | mixed => rfl
  | _ => cases c <;> first | exact absurd rfl (hc _) | exact Bool.noConfusion h

theorem Trust.inPlace_release {t : Trust} : t.release.inPlace = false := by
  cases t with
  | now g => cases g <;> rfl
  | _ => rfl

theorem Grip.present_next (h : q.held ≠ none → ∀ o, q.trust ≠ .before o) (hheld : (q.next e).held ≠ none) (o : Origin) :
    (q.next e).trust ≠ .before o := by
  obtain ⟨c, a⟩ := e
  obtain ⟨held, stage, trust⟩ := q
  have hcompare : ∀ n, (∀ o, trust ≠ .before o) → trust.compare n ≠ .before o := by
    intro n hne
    unfold Trust.compare
    split
    · rintro ⟨⟩
    · split <;> rintro ⟨⟩
    · exact hne o
  have hread : trust.read ≠ .before o := by cases trust <;> rintro ⟨⟩
  cases c with
  | acquire hold => cases trust <;> rintro ⟨⟩
  | release => exact absurd rfl hheld
  | generation => exact hcompare a (h hheld)
  | generationOf id =>
    simp only [next, Trust.next]
    unfold Trust.learn
    split
    · split
      · split <;> rintro ⟨⟩
      · rintro ⟨⟩
    · exact hread
  | _ => first | exact hread | exact h hheld o

theorem Grip.Sound.next (h : q.Sound) (hc : q.Allows e.call) : (q.next e).Sound := by
  suffices hrest : ((q.next e).stage ≠ .idle → (q.next e).held = some .exclusive) ∧
      ((q.next e).trust.inPlace = true → (q.next e).held ≠ none) from ⟨hrest.1, hrest.2, Grip.present_next h.present⟩
  obtain ⟨c, a⟩ := e
  cases c with
  | acquire hold => exact ⟨fun hstage => absurd hc.stage hstage, fun _ => nofun⟩
  | release =>
    refine ⟨fun hstage => absurd hc.stage hstage, fun htrust => ?_⟩
    exact absurd (htrust.symm.trans Trust.inPlace_release) nofun
  | replaceWith store =>
    refine ⟨fun _ => hc.hold.1, fun _ => ?_⟩
    have hheld : q.held = some .exclusive := hc.hold.1
    exact fun hnone => absurd (hheld.symm.trans hnone) nofun
  | bumpGeneration =>
    have hheld : q.held = some .exclusive := h.swap (by rw [show q.stage = .replaced from hc.stage]; exact nofun)
    exact ⟨fun _ => hheld, fun _ hnone => absurd (hheld.symm.trans hnone) nofun⟩
  | clearTickets => exact ⟨fun hstage => absurd rfl hstage, fun ht => h.trust (Grip.inPlace_next ht fun _ => nofun)⟩
  | _ => exact ⟨h.swap, fun ht => h.trust (Grip.inPlace_next ht fun _ => nofun)⟩

end Grips

/-! ## What a call does to the gate -/

section Gate

variable {m h : Holder} {w : World} {a : App} {c : Call}

theorem holds_answer_of_ne (hne : h ≠ m) : (App.answer m w c a).2.gate.holds h = a.gate.holds h := by
  cases c with
  | acquire hold => exact Gate.holds_acquire_of_ne hne
  | release => exact Gate.holds_release_of_ne hne
  | _ => rfl

theorem holds_answer_self {q : Grip} (hblocks : a.blocks c = false)
    (hgate : q.held ≠ none → a.gate.holds m = q.held) (hnext : Grip.nextHold q.held c ≠ none) :
    (App.answer m w c a).2.gate.holds m = Grip.nextHold q.held c := by
  cases c with
  | acquire hold => exact Gate.holds_acquire_self hblocks
  | release => exact absurd rfl hnext
  | _ => exact hgate hnext

theorem counters_answer (hc : c.tag ≠ .swap) :
    (App.answer m w c a).2.generation = a.generation ∧ (App.answer m w c a).2.imports = a.imports := by
  cases c <;> first | exact ⟨rfl, rfl⟩ | exact absurd rfl hc

end Gate

/-! ## The invariant -/

/-- A request obeys, and is where it can be. -/
structure Running.Grips (t : Running) : Prop where
  obeys : t.task.Obeys Gripping ⟨none, .idle, t.request.trust⟩ Grip.Free
  sound : t.grip.Sound

/-- The generation is the number of the database in place, except in the middle of a swap. -/
structure Counters (tasks : List Running) (a : App) : Prop where
  idle : (∀ t ∈ tasks, t.grip.stage ≠ .replaced) → a.generation = a.imports
  replaced : ∀ t ∈ tasks, t.grip.stage = .replaced → a.generation + 1 = a.imports

structure Gated (s : Proxy) : Prop extends Counters s.tasks s.app where
  tasks : ∀ t ∈ s.tasks, t.Grips
  sessions : ∀ (id : Nat) x t, s.sessions[id]? = some x → x.phase = .admitting t →
    t.Obeys Gripping ⟨none, .idle, .before (.entry id)⟩ Grip.Admitted ∧ (x.grip id).Sound
  gate : ∀ h, (s.grip h).held ≠ none → s.app.gate.holds h = (s.grip h).held

namespace Gated

variable {s : Proxy} {h : Holder}

theorem alone (hg : Gated s) {i : Nat} {t : Running} (ht : s.tasks[i]? = some t) (hheld : t.grip.held = some .exclusive)
    (hother : (s.grip h).held ≠ none) : h = .task i := by
  have hgrip : (s.grip (.task i)).held = some .exclusive := by rw [Proxy.grip, ht]; exact hheld
  have hholds := hg.gate (.task i) (by rw [hgrip]; exact nofun)
  rw [hgrip] at hholds
  refine Gate.eq_of_exclusive hholds ?_
  rw [hg.gate h hother]
  exact hother

theorem generation_eq (hg : Gated s) (hheld : (s.grip h).held ≠ none) (hstage : (s.grip h).stage = .idle) :
    s.app.generation = s.app.imports := by
  refine hg.idle fun t ht hreplaced => ?_
  obtain ⟨i, hi⟩ := List.mem_iff_getElem?.1 ht
  have hexclusive := (hg.tasks t ht).sound.swap (by rw [hreplaced]; exact nofun)
  obtain rfl := hg.alone hi hexclusive hheld
  rw [Proxy.grip, hi] at hstage
  exact absurd (hreplaced.symm.trans hstage) nofun

end Gated

/-! ## Steps -/

theorem Standing.allows.tag_ne {id : Nat} {q : Standing} {c : Call} (h : q.allows id c) : c.tag ≠ .swap := by
  cases c <;> first | exact h.elim | exact nofun

theorem Running.Grips.start (r : Request) (seen : List Nat) : (r.start seen).Grips := by
  refine ⟨r.gripping_program, .start ?_⟩
  cases r with
  | http r sent => cases r <;> rfl
  | recordEnd e =>
    simp only [Request.start, Request.trust]
    split <;> rfl
  | _ => rfl

theorem Running.Grips.step {t : Running} {m : Holder} {w : World} {app app' : App} {e : Event Api}
    {task : Task Api (ApiResult Reply)} (h : t.Grips) (database : Nat)
    (hstep : t.task.step (App.serve m w) app = some (e, task, app')) :
    t.grip.Allows e.call ∧ (t.went database e task).grip = t.grip.next e ∧ (t.went database e task).Grips := by
  obtain ⟨hallows, hafter, hobeys⟩ := h.obeys.step hstep
  have hafter : (t.went database e task).grip = t.grip.next e := hafter
  refine ⟨hallows, hafter, hobeys, ?_⟩
  rw [hafter]
  exact h.sound.next hallows

section Grip

variable {s : Proxy} {h : Holder} {id : Nat}

theorem Proxy.grip_task {i : Nat} {t : Running} (ht : s.tasks[i]? = some t) : s.grip (.task i) = t.grip := by
  rw [grip, ht]
  rfl

variable {x : Session}

theorem Proxy.grip_session (hx : s.sessions[id]? = some x) : s.grip (.session id) = x.grip id := by
  rw [grip, hx]
  rfl

theorem Proxy.grip_spawn {more : List Running} (hmore : ∀ t ∈ more, ∃ (r : Request) (seen : List Nat), t = r.start seen)
    (hheld : ((s.spawn more).grip h).held ≠ none) : (s.spawn more).grip h = s.grip h := by
  cases h with
  | session id => rfl
  | task i =>
    rcases Nat.lt_or_ge i s.tasks.length with hi | hi
    · rw [grip, grip, spawn, List.getElem?_append_left hi]
    · rw [grip, spawn, List.getElem?_append_right hi] at hheld
      cases ht : more[i - s.tasks.length]? with
      | none =>
        rw [ht] at hheld
        exact absurd rfl hheld
      | some t =>
        obtain ⟨r, seen, rfl⟩ := hmore t (List.mem_of_getElem? ht)
        rw [ht] at hheld
        exact absurd rfl hheld

variable {phase : Phase}

theorem Proxy.grip_setPhase_of_ne (hne : h ≠ .session id) : (s.setPhase id x phase).grip h = s.grip h := by
  cases h with
  | task i => rfl
  | session id' =>
    have hid : id ≠ id' := fun heq => hne (heq ▸ rfl)
    rw [grip, grip, setPhase, List.getElem?_set_ne hid]

theorem Proxy.grip_setPhase {x' : Session} (hx' : s.sessions[id]? = some x') :
    (s.setPhase id x phase).grip (.session id) = ({ x with phase } : Session).grip id := by
  rw [grip, setPhase, List.getElem?_set_self (List.getElem?_eq_some_iff.1 hx').1]
  rfl

end Grip

namespace Gated

variable {s s' : Proxy}

theorem spawn {more : List Running} (hg : Gated s)
    (hmore : ∀ t ∈ more, ∃ (r : Request) (seen : List Nat), t = r.start seen) : Gated (s.spawn more) where
  tasks t ht := by
    rcases List.mem_append.1 ht with ht | ht
    · exact hg.tasks t ht
    · obtain ⟨r, seen, rfl⟩ := hmore t ht
      exact .start r seen
  sessions := hg.sessions
  gate h hheld := by
    have hgrip := Proxy.grip_spawn hmore hheld
    rw [hgrip] at hheld ⊢
    exact hg.gate h hheld
  idle hnone := hg.idle fun t ht => hnone t (List.mem_append_left _ ht)
  replaced t ht hstage := by
    rcases List.mem_append.1 ht with ht | ht
    · exact hg.replaced t ht hstage
    · obtain ⟨r, seen, rfl⟩ := hmore t ht
      exact absurd hstage nofun

variable {id : Nat} {x : Session} {K : Ground → Prop}

theorem setPhase {x' : Session} {phase : Phase} (hg : Gated s) (hx' : s.sessions[id]? = some x')
    (haway : (({ x with phase } : Session).grip id).held = none)
    (hphase : ∀ t, phase = .admitting t → t.Obeys Gripping ⟨none, .idle, .before (.entry id)⟩ Grip.Admitted ∧
      (({ x with phase } : Session).grip id).Sound) :
    Gated (s.setPhase id x phase) where
  tasks := hg.tasks
  sessions id' y t hy ht := by
    rcases Proxy.sessions_setPhase hy with ⟨rfl, rfl⟩ | ⟨-, hy⟩
    · exact hphase t ht
    · exact hg.sessions id' y t hy ht
  gate h hheld := by
    by_cases hne : h = .session id
    · subst hne
      rw [Proxy.grip_setPhase hx'] at hheld
      exact absurd haway hheld
    · rw [Proxy.grip_setPhase_of_ne hne] at hheld ⊢
      exact hg.gate h hheld
  idle := hg.idle
  replaced := hg.replaced

theorem setLive {live : LiveSessions} (hg : Gated s) : Gated (s.setLive live) :=
  ⟨⟨hg.idle, hg.replaced⟩, hg.tasks, hg.sessions, hg.gate⟩

section Call

variable {i : Nat} {w : World} {t t' : Running} {e : Event Api} {app : App} {database : Nat}

theorem mem_set {tasks : List Running} {u : Running} (hu : u ∈ tasks.set i t') :
    u = t' ∨ ∃ j, j ≠ i ∧ tasks[j]? = some u := by
  obtain ⟨j, hj⟩ := List.mem_iff_getElem?.1 hu
  by_cases hij : i = j
  · subst hij
    rw [List.getElem?_set] at hj
    simp only [if_true] at hj
    split at hj
    · exact .inl (Option.some_inj.1 hj).symm
    · cases hj
  · rw [List.getElem?_set_ne hij] at hj
    exact .inr ⟨j, Ne.symm hij, hj⟩

theorem grip_call (ht : s.tasks[i]? = some t) {h : Holder} :
    ({ app, tasks := s.tasks.set i t', sessions := s.sessions ++ spawned database e } : Proxy).grip h =
      if h = .task i then t'.grip else s.grip h := by
  cases h with
  | task j =>
    by_cases hij : i = j
    · subst hij
      simp [Proxy.grip, List.getElem?_set_self (lt_of_running ht)]
    · have hne : Holder.task j ≠ .task i := fun heq => hij (Holder.task.inj heq).symm
      rw [if_neg hne, Proxy.grip, Proxy.grip, List.getElem?_set_ne hij]
  | session id =>
    rw [if_neg nofun, Proxy.grip, Proxy.grip]
    cases hx : (s.sessions ++ spawned database e)[id]? with
    | none =>
      rw [List.getElem?_eq_none_iff, List.length_append] at hx
      rw [List.getElem?_eq_none_iff.2 (by omega)]
    | some x =>
      rcases sessions_spawned hx with hx | ⟨user, tokenHash, a, -, rfl, rfl⟩
      · rw [hx]
      · rw [List.getElem?_eq_none_iff.2 le_rfl]
        rfl

theorem counters_call {m : Holder} (hg : Gated s) (ht : s.tasks[i]? = some t) (hallows : t.grip.Allows e.call)
    (hnext : t'.grip = t.grip.next e) : Counters (s.tasks.set i t') (App.answer m w e.call s.app).2 := by
  have hmem := List.mem_of_getElem? ht
  have hmem' : t' ∈ s.tasks.set i t' := List.mem_of_getElem? (List.getElem?_set_self (lt_of_running ht))
  have hstage : t'.grip.stage = Grip.nextStage t.grip.stage e.call := congrArg Grip.stage hnext
  -- a call that leaves both, and whether a swap has begun
  have hsame : (App.answer m w e.call s.app).2.generation = s.app.generation →
      (App.answer m w e.call s.app).2.imports = s.app.imports →
      (t'.grip.stage = .replaced ↔ t.grip.stage = .replaced) →
      Counters (s.tasks.set i t') (App.answer m w e.call s.app).2 := by
    intro hgeneration himports hiff
    refine ⟨fun hnone => ?_, fun u hu hreplaced => ?_⟩ <;> rw [hgeneration, himports]
    · refine hg.idle fun u hu hreplaced => ?_
      obtain ⟨j, hj⟩ := List.mem_iff_getElem?.1 hu
      by_cases hij : i = j
      · subst hij
        obtain rfl := Option.some_inj.1 (ht.symm.trans hj)
        exact hnone t' hmem' (hiff.2 hreplaced)
      · exact hnone u (List.mem_of_getElem? ((List.getElem?_set_ne hij).trans hj)) hreplaced
    · rcases mem_set hu with rfl | ⟨j, -, hj⟩
      · exact hg.replaced t hmem (hiff.1 hreplaced)
      · exact hg.replaced u (List.mem_of_getElem? hj) hreplaced
  obtain ⟨c, a⟩ := e
  cases c with
  | replaceWith store =>
    have hidle : t.grip.stage = .idle := hallows.stage
    have hheld : t.grip.held = some .exclusive := hallows.hold.1
    have heq : s.app.generation = s.app.imports := by
      refine hg.generation_eq (h := .task i) ?_ ?_ <;> rw [Proxy.grip_task ht]
      · rw [hheld]
        exact nofun
      · exact hidle
    exact ⟨fun hnone => absurd hstage (hnone t' hmem'), fun _ _ _ => congrArg (· + 1) heq⟩
  | bumpGeneration =>
    have hreplaced : t.grip.stage = .replaced := hallows.stage
    have heq := hg.replaced t hmem hreplaced
    refine ⟨fun _ => heq, fun u hu hu' => ?_⟩
    rcases mem_set hu with rfl | ⟨j, hj, hu⟩
    · exact absurd (hstage.symm.trans hu') nofun
    · have hexclusive := (hg.tasks t hmem).sound.swap (by rw [hreplaced]; exact nofun)
      have hother := (hg.tasks u (List.mem_of_getElem? hu)).sound.swap (by rw [hu']; exact nofun)
      have heq := hg.alone (h := .task j) ht hexclusive (by rw [Proxy.grip_task hu, hother]; exact nofun)
      exact absurd (Holder.task.inj heq) hj
  | clearTickets =>
    have hbumped : t.grip.stage = .bumped := hallows.stage
    exact hsame rfl rfl ⟨fun h => absurd (hstage.symm.trans h) nofun, fun h => absurd (hbumped.symm.trans h) nofun⟩
  | _ => exact hsame rfl rfl (by rw [hstage]; exact Iff.rfl)

theorem call {task : Task Api (ApiResult Reply)} (hg : Gated s) (ht : s.tasks[i]? = some t)
    (hmade : t.task.step (App.serve (.task i) w) s.app = some (e, task, app)) :
    Gated { app, tasks := s.tasks.set i (t.went database e task), sessions := s.sessions ++ spawned database e } := by
  have hgrips := hg.tasks t (List.mem_of_getElem? ht)
  obtain ⟨hallows, hnext, hgrips'⟩ := hgrips.step database hmade
  obtain ⟨hblocks, -, rfl⟩ := App.served hmade
  refine ⟨hg.counters_call ht hallows hnext, fun u hu => ?_, fun id x task' hx hphase => ?_, fun h hheld => ?_⟩
  · rcases mem_set hu with rfl | ⟨j, -, hj⟩
    · exact hgrips'
    · exact hg.tasks u (List.mem_of_getElem? hj)
  · rcases sessions_spawned hx with hx | ⟨user, tokenHash, a, -, -, rfl⟩
    · exact hg.sessions id x task' hx hphase
    · cases hphase
  · rw [grip_call ht] at hheld ⊢
    by_cases hh : h = .task i
    · subst hh
      rw [if_pos rfl, hnext] at hheld ⊢
      refine holds_answer_self hblocks (fun hold => ?_) hheld
      have hgate := hg.gate (.task i)
      rw [Proxy.grip_task ht] at hgate
      exact hgate hold
    · rw [if_neg hh] at hheld ⊢
      exact (holds_answer_of_ne hh).trans (hg.gate h hheld)

end Call

variable {w : World} {t t' : Task Api (Except Refusal Server)} {e : Event Api} {app : App}

theorem admits (hg : Gated s) (hx : s.sessions[id]? = some x) (hphase : x.phase = .admitting t)
    (hmade : t.step (App.serve (.session id) w) s.app = some (e, t', app)) : (x.grip id).Allows e.call ∧
    Gripping.after ⟨none, .idle, .before (.entry id)⟩ t'.made = (x.grip id).next e ∧
    t'.Obeys Gripping ⟨none, .idle, .before (.entry id)⟩ Grip.Admitted := by
  rw [Session.grip, hphase]
  exact (hg.sessions id x t hx hphase).1.step hmade

theorem admission {seen : List Nat} (hg : Gated s) (hsound : Sound K s) (hx : s.sessions[id]? = some x)
    (hphase : x.phase = .admitting t) (hmade : t.step (App.serve (.session id) w) s.app = some (e, t', app)) :
    Gated ({ s with app }.setPhase id { x with seen } (.ofTask t')) := by
  obtain ⟨hallows, hafter, hobeys⟩ := hg.admits hx hphase hmade
  obtain ⟨hstanding, -, -⟩ := (hsound.admits id x t hx hphase).step hmade
  obtain ⟨hblocks, -, rfl⟩ := App.served hmade
  obtain ⟨hgeneration, himports⟩ := counters_answer (m := .session id) (w := w) (a := s.app)
    (Standing.allows.tag_ne hstanding)
  -- where it is: on its way, or no longer at the gate
  have hnext : (∃ u, t'.prog = .ret u ∧ ({ x with seen, phase := .ofTask t' } : Session).grip id = .away) ∨
      Phase.ofTask t' = .admitting t' ∧
        ({ x with seen, phase := .ofTask t' } : Session).grip id = (x.grip id).next e := by
    rw [← hafter]
    simp only [Session.grip, Phase.ofTask]
    cases hprog : t'.prog with
    | ret r => cases r <;> exact .inl ⟨_, rfl, rfl⟩
    | call c next => exact .inr ⟨rfl, rfl⟩
  have hat : ({ s with app := (App.answer (.session id) w e.call s.app).2 }.setPhase id { x with seen }
      (.ofTask t')).grip (.session id) = ({ x with seen, phase := .ofTask t' } : Session).grip id :=
    Proxy.grip_setPhase hx
  refine ⟨⟨fun hnone => ?_, fun u hu hstage => ?_⟩, hg.tasks, fun id' y u hy hu => ?_, fun h hheld => ?_⟩
  · exact hgeneration.trans ((hg.idle hnone).trans himports.symm)
  · exact (congrArg (· + 1) hgeneration).trans ((hg.replaced u hu hstage).trans himports.symm)
  · rcases Proxy.sessions_setPhase hy with ⟨rfl, rfl⟩ | ⟨-, hy⟩
    · rcases hnext with ⟨r, hret, -⟩ | ⟨hadmitting, hnext⟩
      · have hu : Phase.ofTask t' = .admitting u := hu
        rw [Phase.ofTask, hret] at hu
        cases r <;> cases hu
      · obtain rfl : t' = u := Phase.admitting.inj (hadmitting.symm.trans hu)
        refine ⟨hobeys, ?_⟩
        rw [hnext]
        exact (hg.sessions id' x t hx hphase).2.next hallows
    · exact hg.sessions id' y u hy hu
  · by_cases hh : h = .session id
    · subst hh
      rw [hat] at hheld ⊢
      rcases hnext with ⟨r, -, haway⟩ | ⟨-, hnext⟩
      · rw [haway] at hheld
        exact absurd rfl hheld
      · rw [hnext] at hheld ⊢
        refine holds_answer_self hblocks (fun hold => ?_) hheld
        have hgate := hg.gate (.session id)
        rw [Proxy.grip_session hx] at hgate
        exact hgate hold
    · rw [Proxy.grip_setPhase_of_ne hh] at hheld ⊢
      exact (holds_answer_of_ne hh).trans (hg.gate h hheld)

theorem step {a : Act} (hg : Gated s) (hsound : Sound K s) (hstep : s.step a = some s') : Gated s' := by
  cases Proxy.turn hstep with
  | request r => exact hg.spawn fun t ht => ⟨r, [], List.mem_singleton.1 ht⟩
  | call running made => exact hg.call running made
  | @ask id x targetId proxyAuth session phase =>
    refine hg.setPhase session rfl ?_
    rintro t ⟨⟩
    exact ⟨ gripping_admit id x.user targetId proxyAuth, .start rfl⟩
  | admission session phase made => exact hg.admission hsound session phase made
  | @opens id x target addr session phase =>
    exact setPhase (s := s.spawn _) (hg.spawn fun t ht => ⟨_, _, List.mem_singleton.1 ht⟩) session rfl nofun
  | established session => exact setPhase (s := s.setLive _) hg.setLive session rfl nofun
  | superseded session => exact hg.setPhase session rfl nofun
  | report => exact hg.spawn fun t ht => ⟨_, _, List.mem_singleton.1 ht⟩
  | close session =>
    refine setPhase (s := (s.setLive _).spawn _) (spawn hg.setLive fun t ht => ?_) session rfl nofun
    obtain ⟨e, -, rfl⟩ := List.mem_map.1 ht
    exact ⟨_, _, rfl⟩

end Gated

theorem gated_of_run {b : Boot} {trace : ProxyTrace} {s : Proxy} (run : ProxyRun b trace s) :
    Gated s ∧ Sound (fun _ => False) s := by
  refine run.invariant ⟨?_, sound_start⟩ fun s a s' hs hstep => ?_
  · refine ⟨⟨fun _ => ?_, by simp [Boot.start]⟩, by simp [Boot.start], by simp [Boot.start], fun h hheld => ?_⟩
    · obtain ⟨store, vault, happ⟩ := b.app_eq
      rw [Boot.start, happ]
    · cases h <;> exact absurd rfl hheld
  · exact ⟨hs.1.step hs.2 hstep, hs.2.step hstep fun _ _ _ _ hK => hK.elim⟩

end WebAccess
