/-
Results are applied only to the database they were computed from. Each request and each connection
is followed with the databases its reads were answered from. What its protocol state says it knows of
them is true: the state of everybody else's making changes neither the database under a hold nor the
generation a connection was registered in. So whatever writes has read in the database in place only.
-/
import WebAccess.Serve.Holds

namespace WebAccess

open Codec Wire Process Transition

/-! ## What is known is so -/

/-- The database something was read in is the one the origin tells of. -/
def Origin.Is (live : LiveSessions) : Origin → Nat → Prop
  | generation g, n => n = g
  | entry id, n => id < live.next ∧ ∀ l, live.inner id = some l → n = l.generation

/-- What is known of the databases that were read is so. -/
def Trust.Links (app : App) : Trust → List Nat → Prop
  | blank, seen => seen = []
  | before o, seen => ∀ n ∈ seen, o.Is app.live n
  | mixed o, seen => ∀ n ∈ seen, n = app.imports ∨ o.Is app.live n
  | now g, seen => (∀ n ∈ seen, n = app.imports) ∧ ∀ n ∈ g, n = app.imports
  | lost, _ => True
  | exempt, _ => True

/-- Entries that are there keep the generation they were made in. -/
structure LiveSessions.Keeps (live live' : LiveSessions) : Prop where
  next : live.next ≤ live'.next
  entry : ∀ id l', id < live.next → live'.inner id = some l' → ∃ l, live.inner id = some l ∧
    l'.generation = l.generation

section Keeps

variable {live : LiveSessions} {m : Holder} {w : World} {a a' : App} {c : Call}

theorem LiveSessions.Keeps.refl (live : LiveSessions) : live.Keeps live := ⟨le_rfl, fun _ l' _ h => ⟨l', h, rfl⟩⟩

variable {id : Nat} {t : Trust} {seen : List Nat}

theorem LiveSessions.Keeps.modify {f : Live → Live} (hf : ∀ l, (f l).generation = l.generation) :
    live.Keeps (live.modify id f) := by
  refine ⟨le_rfl, fun id' l' _ h => ?_⟩
  by_cases hid : id' = id
  · subst hid
    rw [inner_modify, Option.map_eq_some_iff] at h
    obtain ⟨l, hl, rfl⟩ := h
    exact ⟨l, hl, hf l⟩
  · rw [inner_modify_of_ne _ _ hid] at h
    exact ⟨l', h, rfl⟩

theorem LiveSessions.Keeps.remove : live.Keeps (live.remove id).2 := by
  refine ⟨le_rfl, fun id' l' _ h => ?_⟩
  by_cases hid : id' = id
  · subst hid
    exact absurd (h.symm.trans (Function.update_self ..)) nofun
  · exact ⟨l', (Function.update_of_ne hid _ _).symm.trans h, rfl⟩

theorem keeps_answer : a.live.Keeps (App.answer m w c a).2.live := by
  cases c with
  | register =>
    refine ⟨Nat.le_succ _, fun id l' hid h => ⟨l', ?_, rfl⟩⟩
    exact (Function.update_of_ne hid.ne _ _).symm.trans h
  | sweep v =>
    refine ⟨le_rfl, fun id l' _ h => ?_⟩
    obtain ⟨l, hl, rfl⟩ := Option.map_eq_some_iff.1 h
    refine ⟨l, hl, ?_⟩
    split <;> rfl
  | setServer | setIncarnations => exact .modify fun _ => rfl
  | _ => exact .refl _

theorem Origin.Is.keeps {live' : LiveSessions} {o : Origin} {n : Nat} (h : o.Is live n) (hlive : live.Keeps live') :
    o.Is live' n := by
  cases o with
  | generation g => exact h
  | entry id =>
    refine ⟨h.1.trans_le hlive.next, fun l' hl' => ?_⟩
    obtain ⟨l, hl, heq⟩ := hlive.entry id l' h.1 hl'
    exact (h.2 l hl).trans heq.symm

theorem Trust.Links.keeps (h : t.Links a seen) (hlive : a.live.Keeps a'.live)
    (himports : t.inPlace = true → a'.imports = a.imports) : t.Links a' seen := by
  cases t with
  | blank => exact h
  | before o => exact fun n hn => (h n hn).keeps hlive
  | mixed o =>
    intro n hn
    rw [himports rfl]
    exact (h n hn).imp_right fun his => his.keeps hlive
  | now g =>
    unfold Trust.Links
    rw [himports rfl]
    exact h
  | lost | exempt => trivial

theorem Trust.Links.next (h : t.Links a seen)
    (hgeneration : c = .generation → t.inPlace = true → a.generation = a.imports) :
    (t.next ⟨c, (App.answer m w c a).1⟩).Links a (c.sees a.imports seen) := by
  cases t with
  | lost | exempt => cases c <;> trivial
  | blank =>
    have hnow : (Trust.now none).Links a seen := by
      obtain rfl : seen = [] := h
      exact ⟨by simp, by simp⟩
    cases c <;> first | exact hnow | exact h | trivial
  | before o =>
    have hmixed : (Trust.mixed o).Links a seen := fun n hn => .inr (h n hn)
    cases c <;> first | exact hmixed | exact h | trivial
  | now g =>
    have hread : (Trust.now g).Links a (seen ++ [a.imports]) := by
      refine ⟨fun n hn => ?_, h.2⟩
      rcases List.mem_append.1 hn with hn | hn
      · exact h.1 n hn
      · exact List.mem_singleton.1 hn
    cases c with
    | release =>
      cases g with
      | none => trivial
      | some g => exact fun n hn => (h.1 n hn).trans (h.2 g rfl).symm
    | generation =>
      cases g with
      | none => exact ⟨h.1, fun n hn => (Option.mem_some_iff.1 hn).symm.trans (hgeneration rfl rfl)⟩
      | some g => exact h
    | _ => first | exact hread | exact h
  | mixed o =>
    have hread : (Trust.mixed o).Links a (seen ++ [a.imports]) := by
      intro n hn
      rcases List.mem_append.1 hn with hn | hn
      · exact h n hn
      · exact .inl (List.mem_singleton.1 hn)
    cases c with
    | release => trivial
    | generation =>
      cases o with
      | entry id => exact h
      | generation g =>
        change Trust.Links a (if a.generation = g then .now (some a.generation) else .lost) seen
        by_cases hg : a.generation = g
        · have heq : g = a.imports := hg.symm.trans (hgeneration rfl rfl)
          rw [if_pos hg]
          refine ⟨fun n hn => ?_, fun n hn => (Option.mem_some_iff.1 hn).symm.trans (hgeneration rfl rfl)⟩
          exact (h n hn).elim id fun hn => Eq.trans hn heq
        · rw [if_neg hg]
          trivial
    | generationOf liveId =>
      cases o with
      | generation g => exact hread
      | entry id =>
        simp only [Trust.next, Trust.learn, App.answer, LiveSessions.generationOf]
        cases hl : a.live.inner liveId with
        | none => exact hread
        | some l =>
          simp only [Option.map_some]
          by_cases hid : liveId = id
          · subst hid
            rw [if_pos rfl]
            exact fun n hn => (hread n hn).imp_right fun his => his.2 l hl
          · rw [if_neg hid]
            exact hread
    | _ => first | exact hread | exact h

end Keeps

/-! ## The invariant -/

/-- What a connection has read: at its upgrade and, once it is admitted, all of it in the database it
was registered in. -/
structure Session.Fenced (app : App) (id : Nat) (x : Session) : Prop where
  registered : x.database ∈ x.seen
  entry : ∀ l, app.live.inner id = some l → l.generation = x.database
  established : ∀ l, app.live.inner id = some l → l.established = true → ∃ target, x.phase = .established target
  settled : x.phase = .upgraded ∨ x.phase.target?.isSome = true → ∀ n ∈ x.seen, n = x.database
  admitting : ∀ t, x.phase = .admitting t → (x.grip id).trust.Links app x.seen

structure Fenced (s : Proxy) : Prop where
  tasks : ∀ t ∈ s.tasks, t.grip.trust.Links s.app t.seen
  sessions : ∀ (id : Nat) x, s.sessions[id]? = some x → x.Fenced s.app id

section Steps

variable {s s' : Proxy} {K : Ground → Prop}

variable {w : World} {c : Call} {id : Nat} {app : App} {x : Session}

theorem Gated.imports_call {i : Nat} {t : Running} {h : Holder} (hg : Gated s) (ht : s.tasks[i]? = some t)
    (hallows : t.grip.Allows c) (hne : h ≠ .task i) (hheld : (s.grip h).held ≠ none) :
    (App.answer (.task i) w c s.app).2.imports = s.app.imports := by
  cases c with
  | replaceWith store => exact absurd (hg.alone ht hallows.hold.1 hheld) hne
  | _ => rfl

variable {m : Holder} {a : App} {q : Grip} {t : Trust} {e : Event Api}

theorem imports_answer (hallows : q.Allows c) (hq : q.trust ≠ .exempt) :
    (App.answer m w c a).2.imports = a.imports := by
  cases c with
  | replaceWith store => exact absurd hallows.hold.2 hq
  | _ => rfl

theorem Trust.next_exempt (h : (t.next e).inPlace = true) : t ≠ .exempt := by
  rintro rfl
  obtain ⟨c, a⟩ := e
  cases c <;> exact Bool.noConfusion h

theorem established_answer {l' : Live} (hid : id < a.live.next) (hl' : (App.answer m w c a).2.live.inner id = some l')
    (hestablished : l'.established = true) : ∃ l, a.live.inner id = some l ∧ l.established = true := by
  have hmodify : ∀ {f : Live → Live} {id'}, (a.live.modify id' f).inner id = some l' →
      (∀ l, (f l).established = l.established) → ∃ l, a.live.inner id = some l ∧ l.established = true := by
    intro f id' h hf
    by_cases heq : id = id'
    · subst heq
      rw [LiveSessions.inner_modify, Option.map_eq_some_iff] at h
      obtain ⟨l, hl, rfl⟩ := h
      exact ⟨l, hl, (hf l).symm.trans hestablished⟩
    · rw [LiveSessions.inner_modify_of_ne _ _ heq] at h
      exact ⟨l', h, hestablished⟩
  cases c with
  | register => exact ⟨l', (Function.update_of_ne hid.ne _ _).symm.trans hl', hestablished⟩
  | sweep v =>
    obtain ⟨l, hl, rfl⟩ := Option.map_eq_some_iff.1 hl'
    refine ⟨l, hl, ?_⟩
    split at hestablished <;> exact hestablished
  | setServer | setIncarnations => exact hmodify hl' fun _ => rfl
  | _ => exact ⟨l', hl', hestablished⟩

theorem Session.Fenced.beside {app' : App} (h : x.Fenced app id) (hid : id < app.live.next)
    (hlive : app.live.Keeps app'.live)
    (hestablished : ∀ l', app'.live.inner id = some l' → l'.established = true → ∃ l, app.live.inner id = some l ∧
      l.established = true)
    (himports : (x.grip id).trust.inPlace = true → app'.imports = app.imports) : x.Fenced app' id where
  registered := h.registered
  entry l' hl' := by
    obtain ⟨l, hl, heq⟩ := hlive.entry id l' hid hl'
    exact heq.trans (h.entry l hl)
  established l' hl' hestablished' := by
    obtain ⟨l, hl, hest⟩ := hestablished l' hl' hestablished'
    exact h.established l hl hest
  settled := h.settled
  admitting t ht := (h.admitting t ht).keeps hlive himports

theorem Session.Fenced.origin (h : x.Fenced app id) (hid : id < app.live.next) (hall : ∀ n ∈ x.seen, n = x.database) :
    (Trust.before (.entry id)).Links app x.seen :=
  fun n hn => ⟨hid, fun l hl => (hall n hn).trans (h.entry l hl).symm⟩

theorem Session.Fenced.move {phase : Phase} (h : x.Fenced app id) (hphase : ∀ target, x.phase ≠ .established target)
    (hsettled : phase = .upgraded ∨ phase.target?.isSome = true → ∀ n ∈ x.seen, n = x.database)
    (hadmitting : ∀ t, phase = .admitting t → (({ x with phase } : Session).grip id).trust.Links app x.seen) :
    ({ x with phase } : Session).Fenced app id where
  registered := h.registered
  entry := h.entry
  established l hl hest := by
    obtain ⟨target, htarget⟩ := h.established l hl hest
    exact absurd htarget (hphase target)
  settled := hsettled
  admitting := hadmitting

theorem Trust.next_ne_exempt (h : t ≠ .exempt) : t.next e ≠ .exempt := by
  obtain ⟨c, a⟩ := e
  cases t with
  | exempt => exact absurd rfl h
  | now g => cases g <;> cases c <;> rintro ⟨⟩
  | mixed o =>
    cases c with
    | generation =>
      cases o with
      | generation g =>
        simp only [Trust.next, Trust.compare]
        split <;> rintro ⟨⟩
      | entry id => rintro ⟨⟩
    | generationOf liveId =>
      cases o with
      | generation g => rintro ⟨⟩
      | entry id =>
        simp only [Trust.next, Trust.learn]
        split
        · split <;> rintro ⟨⟩
        · rintro ⟨⟩
    | _ => rintro ⟨⟩
  | _ => cases c <;> rintro ⟨⟩

theorem trust_exempt {made : List (Event Api)} (h : (Gripping.after q made).trust = .exempt) : q.trust = .exempt := by
  induction made generalizing q with
  | nil => exact h
  | cons e made ih =>
    by_contra hne
    exact Trust.next_ne_exempt (e := e) hne (ih (q := q.next e) h)

theorem Session.trust_ne_exempt {x : Session} {t : Task Api (Except Refusal Server)} {id : Nat}
    (hphase : x.phase = .admitting t) : (x.grip id).trust ≠ .exempt := by
  rw [Session.grip, hphase]
  exact fun h => absurd (trust_exempt h) (by rintro ⟨⟩)

theorem register_not_mem {r : Request} (h : r.trust = .exempt) : r.footprint.contains .register = false := by
  cases r with
  | http r sent => cases r <;> first | rfl | cases h
  | _ => rfl

namespace Fenced

theorem spawn {more : List Running} (hf : Fenced s) (hmore : ∀ t ∈ more, t.grip.trust.Links s.app t.seen) :
    Fenced (s.spawn more) :=
  ⟨fun t ht => (List.mem_append.1 ht).elim (hf.tasks t) (hmore t), hf.sessions⟩

variable {id : Nat} {x : Session}

variable {phase : Phase}

theorem setPhase {live : LiveSessions} (hf : Fenced s) (hlive : s.app.live.Keeps live)
    (hinner : ∀ id', id' ≠ id → live.inner id' = s.app.live.inner id')
    (hnumbered : s.app.live.next = s.sessions.length)
    (hx : ({ x with phase } : Session).Fenced { s.app with live } id) :
    Fenced ((s.setLive live).setPhase id x phase) := by
  refine ⟨fun t ht => (hf.tasks t ht).keeps hlive fun _ => rfl, fun id' y hy => ?_⟩
  rcases Proxy.sessions_setPhase hy with ⟨rfl, rfl⟩ | ⟨hid, hy⟩
  · exact hx
  · have hlt : id' < s.app.live.next := hnumbered ▸ (List.getElem?_eq_some_iff.1 hy).1
    refine (hf.sessions id' y hy).beside hlt hlive (fun l' hl' hest => ⟨l', ?_, hest⟩) fun _ => rfl
    exact (hinner id' hid).symm.trans hl'

theorem move (hf : Fenced s) (hnumbered : s.app.live.next = s.sessions.length)
    (hx : ({ x with phase } : Session).Fenced s.app id) : Fenced (s.setPhase id x phase) :=
  hf.setPhase (.refl _) (fun _ _ => rfl) hnumbered hx

section Call

variable {i : Nat} {w : World} {t : Running} {e : Event Api} {app : App}

theorem call {task : Task Api (ApiResult Reply)} (hf : Fenced s) (hg : Gated s) (hsound : Sound K s)
    (ht : s.tasks[i]? = some t) (hmade : t.task.step (App.serve (.task i) w) s.app = some (e, task, app)) :
    Fenced { app, tasks := s.tasks.set i (t.went s.app.imports e task),
             sessions := s.sessions ++ spawned s.app.imports e } := by
  have hmem := List.mem_of_getElem? ht
  have hgrips := hg.tasks t hmem
  obtain ⟨hallows, hnext, -⟩ := hgrips.step s.app.imports hmade
  obtain ⟨hamong, -, -⟩ := (hsound.pays t hmem).step s.app.imports hmade
  obtain ⟨-, hans, rfl⟩ := App.served hmade
  obtain ⟨c, ans⟩ := e
  obtain rfl : ans = (App.answer (.task i) w c s.app).1 := hans
  have hgeneration : t.grip.stage = .idle → t.grip.trust.inPlace = true → s.app.generation = s.app.imports := by
    intro hstage hplace
    refine hg.generation_eq (h := .task i) ?_ ?_ <;> rw [Proxy.grip_task ht]
    · exact hgrips.sound.trust hplace
    · exact hstage
  refine ⟨fun u hu => ?_, fun id x hx => ?_⟩
  · rcases Gated.mem_set hu with rfl | ⟨j, hj, hu⟩
    · rw [hnext]
      have hlinks := (hf.tasks t hmem).next (m := .task i) (w := w) (c := c) ?_
      · exact hlinks.keeps keeps_answer fun hplace => imports_answer hallows (Trust.next_exempt hplace)
      · rintro rfl
        exact hgeneration hallows.stage
    · refine (hf.tasks u (List.mem_of_getElem? hu)).keeps keeps_answer fun hplace => ?_
      refine hg.imports_call (h := .task j) ht hallows (fun h => hj (Holder.task.inj h)) ?_
      rw [Proxy.grip_task hu]
      exact (hg.tasks u (List.mem_of_getElem? hu)).sound.trust hplace
  · rcases sessions_spawned hx with hx | ⟨user, tokenHash, a, hcall, rfl, rfl⟩
    · have hid : id < s.app.live.next := hsound.numbered ▸ (List.getElem?_eq_some_iff.1 hx).1
      refine (hf.sessions id x hx).beside hid keeps_answer (fun l' => established_answer hid) fun hplace => ?_
      refine hg.imports_call (h := .session id) ht hallows (by rintro ⟨⟩) ?_
      rw [Proxy.grip_session hx]
      cases hphase : x.phase with
      | admitting u => exact (hg.sessions id x u hx hphase).2.trust hplace
      | _ =>
        rw [Session.grip, hphase] at hplace
        cases hplace
    · -- the connection is registered under a hold of its request
      obtain rfl : c = .register user tokenHash := congrArg Event.call hcall
      have hregistered : s.app.generation = s.app.imports := by
        refine hgeneration hallows.stage ?_
        have hsure := hallows.trust rfl
        cases htrust : t.grip.trust with
        | now g => rfl
        | exempt => exact absurd rfl (hamong.tag_ne (register_not_mem (trust_exempt htrust)) (by rintro ⟨⟩))
        | _ =>
          rw [htrust] at hsure
          exact hsure.elim
      have hentry : ∀ l, (App.answer (.task i) w (.register user tokenHash) s.app).2.live.inner s.sessions.length =
          some l → l = { userId := user.id, tokenHash, generation := s.app.generation } := by
        intro l hl
        simp only [← hsound.numbered, App.answer, App.writeLive, LiveSessions.inner_register, Function.update_self,
          Option.some_inj] at hl
        exact hl.symm
      exact {
        registered := List.mem_singleton_self _
        entry := fun l hl => by rw [hentry l hl]; exact hregistered
        established := fun l hl hest => by rw [hentry l hl] at hest; cases hest
        settled := fun _ n hn => List.mem_singleton.1 hn
        admitting := fun _ h => by cases h }

end Call

theorem admission {t t' : Task Api (Except Refusal Server)} {e : Event Api} (hf : Fenced s) (hg : Gated s)
    (hsound : Sound K s) (hx : s.sessions[id]? = some x) (hphase : x.phase = .admitting t)
    (hmade : t.step (App.serve (.session id) w) s.app = some (e, t', app)) :
    Fenced ({ s with app }.setPhase id { x with seen := e.call.sees s.app.imports x.seen } (.ofTask t')) := by
  obtain ⟨hallows, hafter, hobeys⟩ := hg.admits hx hphase hmade
  obtain ⟨hstanding, -, -⟩ := (hsound.admits id x t hx hphase).step hmade
  obtain ⟨-, hans, rfl⟩ := App.served hmade
  obtain ⟨-, himports⟩ := counters_answer (m := .session id) (w := w) (a := s.app) (Standing.allows.tag_ne hstanding)
  obtain ⟨c, ans⟩ := e
  obtain rfl : ans = (App.answer (.session id) w c s.app).1 := hans
  have hfenced := hf.sessions id x hx
  have hid : id < s.app.live.next := hsound.numbered ▸ (List.getElem?_eq_some_iff.1 hx).1
  have hmem : x.database ∈ c.sees s.app.imports x.seen := by
    unfold Call.sees
    split
    · exact List.mem_append_left _ hfenced.registered
    · exact hfenced.registered
  have hlinks : (Gripping.after ⟨none, .idle, .before (.entry id)⟩ t'.made).trust.Links
      (App.answer (.session id) w c s.app).2 (c.sees s.app.imports x.seen) := by
    rw [hafter]
    refine ((hfenced.admitting t hphase).next ?_).keeps keeps_answer fun _ => himports
    rintro rfl hplace
    refine hg.generation_eq (h := .session id) ?_ ?_ <;> rw [Proxy.grip_session hx]
    · exact (hg.sessions id x t hx hphase).2.trust hplace
    · exact hallows.stage
  refine ⟨fun u hu => (hf.tasks u hu).keeps keeps_answer fun _ => himports, fun id' y hy => ?_⟩
  rcases Proxy.sessions_setPhase hy with ⟨rfl, rfl⟩ | ⟨-, hy⟩
  · refine ⟨hmem, fun l' hl' => ?_, fun l' hl' hest => ?_, fun hsettled => ?_, fun u hu => ?_⟩
    · obtain ⟨l, hl, heq⟩ := (keeps_answer (m := .session id') (w := w) (c := c)).entry id' l' hid hl'
      exact heq.trans (hfenced.entry l hl)
    · obtain ⟨l, hl, hest⟩ := established_answer hid hl' hest
      obtain ⟨target, htarget⟩ := hfenced.established l hl hest
      exact absurd (hphase.symm.trans htarget) (by rintro ⟨⟩)
    · -- it has been let through: all it read is of one database, its own among them
      cases hprog : t'.prog with
      | call c' next =>
        simp only [Phase.ofTask, hprog] at hsettled
        exact absurd hsettled (by simp [Phase.target?])
      | ret r =>
        cases r with
        | error refusal =>
          simp only [Phase.ofTask, hprog] at hsettled
          exact absurd hsettled (by simp [Phase.target?])
        | ok target =>
          have hadmitted := hobeys.result (a := .ok target) (by rw [hprog]; rfl)
          obtain ⟨g, htrust⟩ := hadmitted.2.2 target rfl
          rw [htrust] at hlinks
          exact fun n hn => (hlinks n hn).trans (hlinks x.database hmem).symm
    · have hu : Phase.ofTask t' = .admitting u := hu
      simp only [Session.grip, hu]
      unfold Phase.ofTask at hu
      split at hu <;> cases hu
      exact hlinks
  · have hid' : id' < s.app.live.next := hsound.numbered ▸ (List.getElem?_eq_some_iff.1 hy).1
    exact (hf.sessions id' y hy).beside hid' keeps_answer (fun l' => established_answer hid') fun _ => himports

/-- A connection that closes: its end is recorded in the database it was registered in, if it was
established there. -/
theorem close (hf : Fenced s) (hsound : Sound K s) (hx : s.sessions[id]? = some x) :
    Fenced (((s.setLive (s.app.live.remove id).2).spawn
      ((s.app.live.remove id).1.toList.map fun e => (Request.recordEnd e).start x.seen)).setPhase id x .closed) := by
  have hfenced := hf.sessions id x hx
  have hclosed : Fenced ((s.setLive (s.app.live.remove id).2).setPhase id x .closed) := by
    refine hf.setPhase .remove (fun _ hid => Function.update_of_ne hid _ _) hsound.numbered ?_
    have hnone : ∀ l, (s.app.live.remove id).2.inner id ≠ some l := by simp [LiveSessions.remove]
    exact {
      registered := hfenced.registered
      entry := fun l hl => absurd hl (hnone l)
      established := fun l hl => absurd hl (hnone l)
      settled := by simp [Phase.target?]
      admitting := nofun }
  refine spawn hclosed fun t ht => ?_
  obtain ⟨e, he, rfl⟩ := List.mem_map.1 ht
  obtain ⟨l, hl, rfl⟩ := Option.map_eq_some_iff.1 (Option.mem_toList.1 he)
  have htrust : ((Request.recordEnd ⟨l.userId, l.serverId, l.established, l.generation, l.incarnations⟩).start
      x.seen).grip.trust = if l.established then .before (.generation l.generation) else .lost := rfl
  rw [htrust]
  cases hest : l.established with
  | false => trivial
  | true =>
    obtain ⟨target, hphase⟩ := hfenced.established l hl hest
    intro n hn
    exact (hfenced.settled (.inr (by rw [hphase]; rfl)) n hn).trans (hfenced.entry l hl).symm

theorem step {a : Act} (hf : Fenced s) (hg : Gated s) (hsound : Sound K s) (hstep : s.step a = some s') :
    Fenced s' := by
  have hid : ∀ {id : Nat} {x : Session}, s.sessions[id]? = some x → id < s.app.live.next :=
    fun hx => hsound.numbered ▸ (List.getElem?_eq_some_iff.1 hx).1
  cases Proxy.turn hstep with
  | request r external =>
    refine hf.spawn fun t ht => ?_
    rw [List.mem_singleton.1 ht]
    cases r with
    | http r sent => cases r <;> first | rfl | trivial
    | revocationPass lookupEach => rfl
    | tool t => trivial
    | recordOpen | recordEnd | report => cases external
  | call running made => exact hf.call hg hsound running made
  | @ask id x targetId proxyAuth session phase =>
    have hfenced := hf.sessions id x session
    refine hf.move hsound.numbered (hfenced.move (by simp [phase]) (by simp [Phase.target?]) ?_)
    rintro t ⟨⟩
    exact hfenced.origin (hid session) (hfenced.settled (.inl phase))
  | admission session phase made => exact hf.admission hg hsound session phase made
  | @opens id x target addr session phase =>
    have hfenced := hf.sessions id x session
    have hall := hfenced.settled (.inr (by rw [phase]; rfl))
    refine move (s := s.spawn _) (hf.spawn fun t ht => ?_) hsound.numbered
      (hfenced.move (by simp [phase]) (fun _ => hall) nofun)
    rw [List.mem_singleton.1 ht]
    exact hfenced.origin (hid session) hall
  | @established id i x target session phase reply opened =>
    have hfenced := hf.sessions id x session
    have hkeeps : s.app.live.Keeps (s.app.live.setEstablished id) := .modify fun _ => rfl
    refine hf.setPhase hkeeps (fun _ hid => LiveSessions.inner_modify_of_ne _ _ hid) hsound.numbered ?_
    exact {
      registered := hfenced.registered
      entry := fun l' hl' => by
        obtain ⟨l, hl, heq⟩ := hkeeps.entry id l' (hid session) hl'
        exact heq.trans (hfenced.entry l hl)
      established := fun _ _ _ => ⟨target, rfl⟩
      settled := fun _ => hfenced.settled (.inr (by rw [phase]; rfl))
      admitting := nofun }
  | @superseded id i x target e session phase opened =>
    refine hf.move hsound.numbered ((hf.sessions id x session).move (by simp [phase]) (by simp [Phase.target?]) nofun)
  | report =>
    refine hf.spawn fun t ht => ?_
    rw [List.mem_singleton.1 ht]
    trivial
  | close session => exact hf.close hsound session

end Fenced

end Steps

/-! ## The database that is written is the one that was read -/

variable {b : Boot} {trace : ProxyTrace} {s : Proxy}

theorem fenced_of_run (run : ProxyRun b trace s) : Fenced s := by
  have hall : Fenced s ∧ Gated s ∧ Sound (fun _ => False) s := by
    refine run.history ?_ ?_
    · exact ⟨⟨by simp [Boot.start], by simp [Boot.start]⟩, gated_of_run .nil⟩
    · intro tr s a s' hrun ih hstep
      exact ⟨ih.1.step ih.2.1 ih.2.2 hstep, gated_of_run (hrun.snoc hstep)⟩
  exact hall.1

/-- The requests that act on the rows of a database: not an export or an import, which are about the
database itself, nor the reports of the file scan and the tools, which do not take the gate. -/
def Request.fenced : Request → Bool
  | http (.exportDatabase ..) _ | http (.confirmImport ..) _ | report .. | tool _ => false
  | _ => true

theorem Request.trust_of_fenced {r : Request} (h : r.fenced = true) : r.trust ≠ .exempt := by
  cases r with
  | http r sent => cases r <;> first | exact absurd h Bool.false_ne_true | rintro ⟨⟩
  | recordEnd e =>
    simp only [trust]
    split <;> rintro ⟨⟩
  | _ => first | exact absurd h Bool.false_ne_true | rintro ⟨⟩

variable {app : App}

theorem Grip.Allows.seen {q : Grip} {c : Call} {seen : List Nat} (hallows : q.Allows c)
    (hlinks : q.trust.Links app seen) (hexempt : q.trust ≠ .exempt) (hwrites : c.writes = true) :
    ∀ n ∈ seen, n = app.imports := by
  have hsure := hallows.trust hwrites
  cases htrust : q.trust with
  | now g =>
    rw [htrust] at hlinks
    exact hlinks.1
  | exempt => exact absurd htrust hexempt
  | _ =>
    rw [htrust] at hsure
    exact hsure.elim

theorem Fenced.seen_of_writes (hf : Fenced s) (hg : Gated s) {t : Running} (ht : t ∈ s.tasks) {m : Holder} {w : World}
    {ev : Event Api} {task : Task Api (ApiResult Reply)}
    (hmade : t.task.step (App.serve m w) s.app = some (ev, task, app)) (hfences : t.request.fenced = true)
    (hwrites : ev.call.writes = true) : ∀ n ∈ t.seen, n = s.app.imports := by
  obtain ⟨hallows, -, -⟩ := (hg.tasks t ht).step s.app.imports hmade
  exact hallows.seen (hf.tasks t ht) (fun h => Request.trust_of_fenced hfences (trust_exempt h)) hwrites

/-- Results are applied only to the database they were computed from: whenever a request or an
admission writes a row, ends a session or ends a connection, every database that one of its reads was
answered from, its connection's included, is the one in place. -/
theorem writes_where_read (run : ProxyRun b trace s) :
    ∀ e ∈ trace, (∀ t ev, taskCall e = some (t, ev) → t.request.fenced = true → ev.call.writes = true →
        ∀ n ∈ t.seen, n = e.pre.app.imports) ∧
      ∀ id x ev, sessionCall e = some (id, x, ev) → ev.call.writes = true → ∀ n ∈ x.seen, n = e.pre.app.imports := by
  intro e he
  obtain ⟨_, _, _, hbefore⟩ := run.exists_before he
  obtain ⟨hgated, hsound⟩ := gated_of_run hbefore
  have hfenced := fenced_of_run hbefore
  refine ⟨fun t ev hcall hfences hwrites => ?_, fun id x ev hcall hwrites => ?_⟩
  · obtain ⟨i, w, task, app, -, ht, hmade⟩ := taskCall_eq_some hcall
    exact hfenced.seen_of_writes hgated (List.mem_of_getElem? ht) hmade hfences hwrites
  · obtain ⟨w, t, t', app, -, hx, hphase, hmade⟩ := sessionCall_eq_some hcall
    obtain ⟨hallows, -, -⟩ := hgated.admits hx hphase hmade
    exact hallows.seen ((hfenced.sessions id x hx).admitting t hphase) (Session.trust_ne_exempt hphase) hwrites

def localUser : Boot where
  store := {
    users :=
      Table.empty.insert (fun id => ({ id, username := ['a'], localHash := some ['h'], incarnation := 1 } : User))
      fun _ => rfl
    instanceId := some ['i'] }

def signInLocal : List Act := .request (.http (.login ['a'] (fun _ => true) none [1] []) none) :: calls 0 17

/-- A local sign-in writes its session where it read the row. -/
theorem writes_where_read_signInLocal : ∃ s, ProxyRun localUser (scriptedProxy localUser signInLocal) s ∧
    ∃ e ∈ scriptedProxy localUser signInLocal, ∃ t ev, taskCall e = some (t, ev) ∧ ev.call.tag = .session ∧
      t.seen ≠ [] ∧ ∀ n ∈ t.seen, n = e.pre.app.imports := by
  obtain ⟨s, run, -⟩ := scriptedProxy_run localUser signInLocal (fun s => !s.app.store.sessions.isEmpty)
    (by decide +kernel)
  have hwrites : (scriptedProxy localUser signInLocal).any (fun e => (taskCall e).any fun c =>
      c.2.call.tag == .session && c.1.request.fenced && !c.1.seen.isEmpty) = true := by decide +kernel
  obtain ⟨e, he, hwrites⟩ := List.any_eq_true.1 hwrites
  obtain ⟨⟨t, ev⟩, hcall, hwrites⟩ := (Option.any_eq_true ..).1 hwrites
  simp only [Bool.and_eq_true, beq_iff_eq, Bool.not_eq_true', List.isEmpty_eq_false_iff] at hwrites
  refine ⟨s, run, e, he, t, ev, hcall, hwrites.1.1, hwrites.2, ?_⟩
  refine (writes_where_read run e he).1 t ev hcall hwrites.1.2 ?_
  rw [Call.writes, hwrites.1.1]
  rfl

end WebAccess
