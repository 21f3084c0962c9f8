/-
What becomes of the rows of users. Ids are never given out twice in a database, so the row of an id
is the row it was: of the same incarnation, and local or not as ever. It is bound to another account
only where its SID is reset, or where a sign-in binds it that is not bound.
-/
import WebAccess.Serve.Fencing
import WebAccess.Serve.History

namespace WebAccess

open Codec Wire Process Transition

/-! ## One call -/

/-- The calls that change which account a row is bound to: its SID is reset, or it is bound by a sign-in and was not
before. -/
def Call.rebinds (c : Call) (u : User) : Bool :=
  match c with
  | .userClearSid id => id == u.id
  | .userRecordLogin id .. => id == u.id && u.sid.isNone
  | _ => false

structure User.Follows (c : Call) (u u' : User) : Prop where
  id : u'.id = u.id
  incarnation : u'.incarnation = u.incarnation
  isLocal : u'.isLocal = u.isLocal
  sid : c.rebinds u = false → u'.sid = u.sid

theorem User.Follows.refl {c : Call} (u : User) : u.Follows c u := ⟨rfl, rfl, rfl, fun _ => rfl⟩

/-- Every row after a call was there before, or has a new id. -/
structure Store.Follows (c : Call) (s s' : Store) : Prop where
  rows : ∀ u' ∈ s'.users.rows, s.users.seq < u'.id ∨ ∃ u ∈ s.users.rows, u.Follows c u'
  seq : s.users.seq ≤ s'.users.seq

namespace Store.Follows

variable {s s' s'' : Store} {c : Call}

theorem congr (h : s.Follows c s') (husers : s''.users = s'.users) : s.Follows c s'' :=
  ⟨fun u' hu' => h.rows u' (husers ▸ hu'), husers ▸ h.seq⟩

theorem refl (s : Store) : s.Follows c s := ⟨fun u' hu' => .inr ⟨u', hu', .refl u'⟩, Int.le_refl _⟩

theorem of_users_eq (h : s'.users = s.users) : s.Follows c s' := (refl s).congr h

variable {p : User → Bool} {username : Text} {incarnation : Int}

theorem update {f : User → User} {hf : ∀ u, (f u).id = u.id}
    (hfollows : ∀ u ∈ s.users.rows, p u = true → u.Follows c (f u)) :
    s.Follows c { s with users := s.users.update p f hf } := by
  refine ⟨fun u' hu' => ?_, Int.le_refl _⟩
  obtain ⟨u, hu, rfl⟩ := List.mem_map.1 hu'
  refine .inr ⟨u, hu, ?_⟩
  split
  · rename_i hp
    exact hfollows u hu hp
  · exact .refl u

theorem insert {row : Int → User} {hrow : ∀ n, (row n).id = n} :
    s.Follows c { s with users := s.users.insert row hrow } := by
  refine ⟨fun u' hu' => ?_, Int.le_of_lt (Int.lt_succ _)⟩
  rcases mem_snoc.1 hu' with hu' | rfl
  · exact .inr ⟨u', hu', .refl u'⟩
  · rw [hrow]
    exact .inl (Int.lt_succ _)

theorem delete : s.Follows c { s with users := s.users.delete p } :=
  ⟨fun u' hu' => .inr ⟨u', List.mem_of_mem_filter hu', .refl u'⟩, Int.le_refl _⟩

theorem of_extends (h : s.Extends s') : s.Follows c s' := by
  refine ⟨fun u' hu' => ?_, Int.le_of_eq h.sequence.symm⟩
  obtain ⟨u, hu, heq⟩ := h.mem_users hu'
  refine .inr ⟨u, hu, (congrArg User.id heq :).symm, (congrArg User.incarnation heq :).symm,
    (congrArg User.isLocal heq :).symm, fun _ => (congrArg User.sid heq :).symm⟩

theorem userCreateReturning {displayName : Option Text} :
    s.Follows c (s.userCreateReturning username displayName incarnation).2 := by
  unfold Store.userCreateReturning
  split
  · exact of_users_eq rfl
  · exact insert

theorem localAccountSet {hash sid : Text} : s.Follows c (s.localAccountSet username hash sid incarnation).2 := by
  unfold Store.localAccountSet
  split
  · rename_i v hv
    split
    · rename_i hlocal
      refine update fun u hu hid => ⟨rfl, rfl, ?_, fun _ => rfl⟩
      obtain rfl := Table.eq_of_id_eq hu (List.mem_of_find?_eq_some hv) (beq_iff_eq.1 hid)
      exact hlocal.symm
    · exact of_users_eq rfl
  · exact insert

theorem userClearSid {id : Int} : s.Follows (.userClearSid id) (s.userClearSid id).2 := by
  unfold Store.userClearSid
  split
  · have hcleared : s.Follows (.userClearSid id) { s with
        users := s.users.update (·.id == id) (fun u => { u with sid := none, sidMismatch := false }) fun _ =>
            rfl } := by
      refine update fun u _ hid => ⟨rfl, rfl, rfl, fun hrebinds => ?_⟩
      simp [Call.rebinds, beq_iff_eq.1 hid] at hrebinds
    exact hcleared.congr rfl
  · exact of_users_eq rfl

theorem answer {m : Holder} {w : World} {a : App} (hc : ∀ store, c ≠ .replaceWith store) :
    a.store.Follows c (App.answer m w c a).2.store := by
  have hkeeps := App.keeps_answer m w c a
  cases c with
  | replaceWith store => exact absurd rfl (hc store)
  | edit e => exact of_extends (a.store.extends_edit w.randoms e)
  | userRename | userFlagMismatch => exact update fun u _ _ => ⟨rfl, rfl, rfl, fun _ => rfl⟩
  | userRecordLogin =>
    refine update fun u _ hhit => ⟨rfl, rfl, rfl, fun hrebinds => ?_⟩
    -- the row is bound already, to the SID of the sign-in
    simp only [Bool.and_eq_true, beq_iff_eq] at hhit
    obtain ⟨⟨rfl, -⟩, -⟩ := hhit
    simp only [Call.rebinds, beq_self_eq_true, Bool.true_and, Option.isNone_eq_false_iff] at hrebinds
    obtain ⟨bound, hbound⟩ := Option.isSome_iff_exists.1 hrebinds
    simp [hbound]
  | userCreateReturning | userCreate => exact userCreateReturning
  | localAccountSet => exact localAccountSet
  | userClearSid id => exact userClearSid
  | userDelete id =>
    simp only [App.answer, App.write, Store.userDelete]
    split
    · exact congr delete rfl
    · exact of_users_eq rfl
  | _ => exact of_users_eq (hkeeps.users rfl)

end Store.Follows

/-! ## Steps and runs -/

/-- A step that puts a database in place. -/
def Replaces (e : Entry Proxy Act) : Prop := ∃ t store, taskCall e = some (t, ⟨.replaceWith store, ()⟩)

/-- A step that changes which account the row of an id is bound to. -/
def Rebinds (id : Int) (e : Entry Proxy Act) : Prop :=
  ∃ u ∈ e.pre.app.store.users.rows, u.id = id ∧ ∃ t ev, taskCall e = some (t, ev) ∧ ev.call.rebinds u = true

/-- A step that resets the SID of the row of an id. -/
def ResetsSid (id : Int) (e : Entry Proxy Act) : Prop :=
  ∃ t removed, taskCall e = some (t, ⟨.userClearSid id, removed⟩)

theorem Rebinds.reset_or_unbound {id : Int} {e : Entry Proxy Act} (h : Rebinds id e) :
    ResetsSid id e ∨ ∃ u ∈ e.pre.app.store.users.rows, u.id = id ∧ u.sid = none := by
  obtain ⟨u, hu, rfl, t, ⟨c, a⟩, hcall, hrebinds⟩ := h
  cases c with
  | userClearSid id =>
    obtain rfl : id = u.id := beq_iff_eq.1 hrebinds
    exact .inl ⟨t, a, hcall⟩
  | userRecordLogin =>
    obtain ⟨-, hnone⟩ := Bool.and_eq_true_iff.1 hrebinds
    exact .inr ⟨u, hu, rfl, Option.isNone_iff_eq_none.1 hnone⟩
  | _ => cases hrebinds

/-- The rows of users after some steps: those of ids that were given out before were there, and are bound as they were
if no step has changed that. -/
structure Proxy.Stays (tr : ProxyTrace) (s s' : Proxy) : Prop where
  seq : s.app.store.users.seq ≤ s'.app.store.users.seq
  rows : ∀ u' ∈ s'.app.store.users.rows, u'.id ≤ s.app.store.users.seq → ∃ u ∈ s.app.store.users.rows,
    u'.id = u.id ∧ u'.incarnation = u.incarnation ∧ u'.isLocal = u.isLocal ∧
      ((∀ e ∈ tr, ¬ Rebinds u.id e) → u'.sid = u.sid)

section Steps

variable {s s' s'' : Proxy} {a : Act} {c : Call}

theorem Proxy.Stays.refl (s : Proxy) : s.Stays [] s :=
  ⟨Int.le_refl _, fun u' hu' _ => ⟨u', hu', rfl, rfl, rfl, fun _ => rfl⟩⟩

variable {tr trace : ProxyTrace} {b : Boot}

theorem Proxy.Stays.trans {tr' : ProxyTrace} (h : s.Stays tr s') (h' : s'.Stays tr' s'') : s.Stays (tr ++ tr') s'' := by
  refine ⟨Int.le_trans h.seq h'.seq, fun u'' hu'' hid => ?_⟩
  obtain ⟨u', hu', hid', hincarnation', hlocal', hsid'⟩ := h'.rows u'' hu'' (Int.le_trans hid h.seq)
  obtain ⟨u, hu, hid'', hincarnation, hlocal, hsid⟩ := h.rows u' hu' (hid' ▸ hid)
  refine ⟨u, hu, hid'.trans hid'', hincarnation'.trans hincarnation, hlocal'.trans hlocal, fun hquiet => ?_⟩
  rw [hsid' fun e he => hid'' ▸ hquiet e (List.mem_append_right _ he)]
  exact hsid fun e he => hquiet e (List.mem_append_left _ he)

theorem Proxy.Stays.of_follows (h : s.app.store.Follows c s'.app.store)
    (hrebinds : ∀ u ∈ s.app.store.users.rows, c.rebinds u = true → Rebinds u.id ⟨s, a, s'⟩) :
    s.Stays [⟨s, a, s'⟩] s' := by
  refine ⟨h.seq, fun u' hu' hid => ?_⟩
  rcases h.rows u' hu' with hnew | ⟨u, hu, hfollows⟩
  · omega
  · refine ⟨u, hu, hfollows.id, hfollows.incarnation, hfollows.isLocal, fun hquiet => hfollows.sid ?_⟩
    rw [← Bool.not_eq_true]
    exact fun h => hquiet _ (List.mem_singleton_self _) (hrebinds u hu h)

variable {u u' : User}

theorem Standing.allows.rebinds {id : Nat} {q : Standing} (h : q.allows id c) : c.rebinds u = false := by
  cases c <;> first | rfl | exact h.elim

theorem stays_of_step (hsound : Sound (fun _ => False) s) (hstep : s.step a = some s')
    (hreplaces : ¬ Replaces ⟨s, a, s'⟩) : s.Stays [⟨s, a, s'⟩] s' := by
  have hsame : s'.app.store = s.app.store → s.Stays [⟨s, a, s'⟩] s' := fun h =>
    Proxy.Stays.of_follows (c := .now) (.of_users_eq (by rw [h])) fun _ _ h => by cases h
  cases Proxy.turn hstep with
  | @call i w t e task app running made =>
    obtain ⟨-, -, rfl⟩ := App.served made
    have hcall : ∀ post, taskCall ⟨s, .call i w, post⟩ = some (t, e) := fun _ => by simp [taskCall, running, made]
    refine .of_follows (c := e.call) (.answer fun store heq => hreplaces ⟨t, store, ?_⟩)
      fun u hu h => ⟨u, hu, rfl, t, e, hcall _, h⟩
    obtain ⟨c, a⟩ := e
    obtain rfl : c = .replaceWith store := heq
    exact hcall _
  | @admission id w x t t' e app session phase made =>
    obtain ⟨hstanding, -, -⟩ := (hsound.admits id x t session phase).step made
    obtain ⟨-, -, rfl⟩ := App.served made
    refine .of_follows (c := e.call) (.answer fun store heq => ?_) fun u _ h => ?_
    · have htag := Standing.allows.tag_ne hstanding
      rw [heq] at htag
      exact htag rfl
    · rw [Standing.allows.rebinds hstanding] at h
      cases h
  | _ => exact hsame rfl

theorem imports_le_of_step (hstep : s.step a = some s') : s.app.imports ≤ s'.app.imports := by
  have hanswer : ∀ {m : Holder} {w : World} {c : Call} {app : App}, app.imports ≤ (App.answer m w c app).2.imports := by
    intro m w c app
    cases c with
    | replaceWith store => exact Nat.le_succ _
    | _ => exact Nat.le_refl _
  cases Proxy.turn hstep with
  | call running made =>
    obtain ⟨-, -, rfl⟩ := App.served made
    exact hanswer
  | admission session phase made =>
    obtain ⟨-, -, rfl⟩ := App.served made
    exact hanswer
  | _ => exact Nat.le_refl _

theorem Replaces.imports_lt {e : Entry Proxy Act} (h : Replaces e) (hstep : e.pre.step e.label = some e.post) :
    e.pre.app.imports < e.post.app.imports := by
  obtain ⟨t, store, hcall⟩ := h
  obtain ⟨m, w, -, happ⟩ := app_of_taskCall hstep hcall
  rw [happ]
  exact Nat.lt_succ_self _

theorem not_replaces_of_run (hrun : ProxyPath s tr s')
    (himports : s.app.imports = s'.app.imports) : ∀ e ∈ tr, ¬ Replaces e := by
  have hle : ∀ {tr : ProxyTrace} {s s' : Proxy}, ProxyPath s tr s' →
      s.app.imports ≤ s'.app.imports := fun {tr s s'} hrun =>
    hrun.invariant (Nat.le_refl _)
      fun _ _ _ h hstep => h.trans (imports_le_of_step hstep)
  intro e he hreplaces
  obtain ⟨tr₁, tr₂, rfl⟩ := List.append_of_mem he
  have hlt := hreplaces.imports_lt hrun.before.2
  have hbefore := hle hrun.before.1
  have hafter := hle hrun.after.2
  omega

section Unreplaced

variable (run : ProxyRun b trace s) (hrun : ProxyPath s tr s') (hreplaces : ∀ e ∈ tr, ¬ Replaces e)

include run hrun hreplaces

theorem stays_of_run : s.Stays tr s' := by
  have hrun := hrun.restrict (C := fun e => ¬ Replaces e) hreplaces
  refine hrun.history (.refl s) ?_
  rintro tr s' a s'' hrun ih ⟨hstep, hreplaces⟩
  obtain ⟨-, hsound⟩ := gated_of_run (run.append (hrun.mono fun _ _ _ h => h.1))
  exact ih.trans (stays_of_step hsound hstep hreplaces)

theorem row_before (hu' : u' ∈ s'.app.store.users.rows) (hold : u'.id ≤ s.app.store.users.seq) :
    ∃ u ∈ s.app.store.users.rows, u'.id = u.id ∧ u'.incarnation = u.incarnation ∧ u'.isLocal = u.isLocal := by
  obtain ⟨u, hu, hid, hincarnation, hlocal, -⟩ := (stays_of_run run hrun hreplaces).rows u' hu' hold
  exact ⟨u, hu, hid, hincarnation, hlocal⟩

theorem kind_stays (hu : u ∈ s.app.store.users.rows) (hu' : u' ∈ s'.app.store.users.rows)
    (hid : u'.id = u.id) : u'.isLocal = u.isLocal := by
  obtain ⟨v, hv, hvid, -, hlocal⟩ := row_before run hrun hreplaces hu' (hid ▸ s.app.store.users.id_le u hu)
  obtain rfl := Table.eq_of_id_eq hv hu (hvid.symm.trans hid)
  exact hlocal

/-- A row that is bound stays bound, to the same account, until its SID is reset. -/
theorem sid_stays (hu : u ∈ s.app.store.users.rows) (hbound : u.sid ≠ none)
    (hreset : ∀ e ∈ tr, ¬ ResetsSid u.id e) (hu' : u' ∈ s'.app.store.users.rows) (hid : u'.id = u.id) :
    u'.sid = u.sid := by
  have hrow : ∀ {tr : ProxyTrace} {s' : Proxy} {u' : User}, s.Stays tr s' → (∀ e ∈ tr, ¬ Rebinds u.id e) →
      u' ∈ s'.app.store.users.rows → u'.id = u.id → u'.sid = u.sid := by
    intro tr s' u' hstays hquiet hu' hid
    obtain ⟨v, hv, hvid, -, -, hsid⟩ := hstays.rows u' hu' (hid ▸ s.app.store.users.id_le u hu)
    obtain rfl := Table.eq_of_id_eq hv hu (hvid.symm.trans hid)
    exact hsid hquiet
  have hrun := hrun.restrict (C := fun e => ¬ Replaces e ∧ ¬ ResetsSid u.id e) fun e he => ⟨hreplaces e he, hreset e he⟩
  have hquiet : s.Stays tr s' ∧ ∀ e ∈ tr, ¬ Rebinds u.id e := by
    refine hrun.history ⟨.refl s, by simp⟩ ?_
    rintro tr s' a s'' hrun ⟨hstays, hquiet⟩ ⟨hstep, hreplaces, hreset⟩
    obtain ⟨-, hsound⟩ := gated_of_run (run.append (hrun.mono fun _ _ _ h => h.1))
    refine ⟨hstays.trans (stays_of_step hsound hstep hreplaces), fun e he => ?_⟩
    rcases mem_snoc.1 he with he | rfl
    · exact hquiet e he
    intro hrebinds
    rcases hrebinds.reset_or_unbound with h | ⟨v, hv, hvid, hnone⟩
    · exact hreset h
    · exact hbound ((hrow hstays hquiet hv hvid).symm.trans hnone)
  exact hrow hquiet.1 hquiet.2 hu' hid

end Unreplaced

/-- An id that was given out and has no row never has one again, as long as no database is put in place. -/
theorem id_never_returns (run : ProxyRun b trace s) (hrun : Run (fun s a s' => s.step a = some s') s tr s')
    (hreplaces : ∀ e ∈ tr, ¬ Replaces e) {id : Int} (hid : id ≤ s.app.store.users.seq)
    (hgone : ∀ u ∈ s.app.store.users.rows, u.id ≠ id) : ∀ u' ∈ s'.app.store.users.rows, u'.id ≠ id := by
  rintro u' hu' rfl
  obtain ⟨u, hu, heq, -⟩ := row_before run hrun hreplaces hu' hid
  exact hgone u hu heq.symm

/-- A user was removed; the account that is then made under their name has another id. -/
theorem id_never_returns_removed : ∃ b tr s', ProxyRun b tr s' ∧ s'.app.store.users.rows.map User.id = [2] ∧
    ∀ u' ∈ s'.app.store.users.rows, u'.id ≠ 1 := by
  let users : Table User.id := Table.empty.insert (fun id => { id, username := ['a'], incarnation := 0 }) fun _ => rfl
  obtain ⟨s', run, hs'⟩ := scriptedProxy_run { store := { users := users.delete fun _ => true } }
    (.request (.tool (.localAccount ['a'] [] ['S'] false)) :: calls 0 3)
    (fun s' => s'.app.imports == 0 && s'.app.store.users.rows.map User.id == [2]) (by decide +kernel)
  simp only [Bool.and_eq_true, beq_iff_eq] at hs'
  refine ⟨_, _, s', run, hs'.2, id_never_returns .nil run (not_replaces_of_run run hs'.1.symm) (by decide) ?_⟩
  exact fun u hu => absurd hu List.not_mem_nil

end Steps

end WebAccess
