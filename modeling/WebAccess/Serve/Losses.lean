/-
What a call takes away. A ground that a call removes is covered by a sweep the call makes due, in
all but two cases: the purge of expired sign-ins, and a change of a user's assignments that removes
one the request had not read. Without a sign-in and an import, nothing that was removed comes back.
-/
import WebAccess.Serve.Standing
import Mathlib.Data.List.Dedup

namespace WebAccess

open Codec Wire Process

/-! ## The tables -/

namespace Ground.Holds

variable {s s' : Store} {g : Ground} (h : g.Holds s)

include h

theorem mono (hsessions : s.sessions ⊆ s'.sessions) (hservers : s.servers.Extends s'.servers)
    (hassignments : s.assignments ⊆ s'.assignments) : g.Holds s' := by
  cases g with
  | signIn =>
    obtain ⟨r, hr, hrow⟩ := h
    exact ⟨r, hsessions hr, hrow⟩
  | server serverId =>
    obtain ⟨v, hv, hid⟩ := h
    obtain ⟨v', hv', hid'⟩ := hservers.kept v hv
    exact ⟨v', hv', hid'.trans hid⟩
  | assignment => exact hassignments h

theorem congr (hsessions : s'.sessions = s.sessions) (hservers : s'.servers = s.servers)
    (hassignments : s'.assignments = s.assignments) : g.Holds s' :=
  h.mono (hsessions ▸ List.Subset.refl _) (hservers ▸ .refl _) (hassignments ▸ List.Subset.refl _)

variable {id : Int}

/-- The facts after rows of some users' sessions and assignments have gone: a fact that is gone
named one of those users. -/
theorem deleteUser (hservers : s'.servers = s.servers)
    (hassignments : ∀ a ∈ s.assignments, a.1 ≠ id → a ∈ s'.assignments)
    (hsessions : s'.sessions = s.sessions.filter (·.userId != id)) : g.Holds s' ∨ (Sweep.user id).Covers g := by
  cases g with
  | signIn tokenHash userId =>
    obtain ⟨r, hr, htoken, rfl⟩ := h
    by_cases hid : r.userId = id
    · exact .inr hid.symm
    · exact .inl ⟨r, by simpa [hsessions, hr] using hid, htoken, rfl⟩
  | server serverId =>
    refine .inl ?_
    unfold Ground.Holds
    rwa [hservers]
  | assignment userId serverId =>
    by_cases hid : userId = id
    · exact .inr hid.symm
    · exact .inl (hassignments _ h hid)

theorem userDelete : g.Holds (s.userDelete id).2 ∨ (s.userDelete id).1 = .ok () ∧ (Sweep.user id).Covers g := by
  unfold Store.userDelete
  split
  · refine Or.imp_right (fun hw => ⟨rfl, hw⟩) ?_
    exact h.deleteUser rfl (by simp +contextual) rfl
  · exact .inl h

theorem userClearSid : g.Holds (s.userClearSid id).2 ∨ (s.userClearSid id).1 = .ok () ∧ (Sweep.user id).Covers g := by
  unfold Store.userClearSid
  split
  · refine Or.imp_right (fun hw => ⟨rfl, hw⟩) ?_
    exact h.deleteUser rfl (by simp +contextual) rfl
  · exact .inl h

theorem sessionsDeleteUser : g.Holds (s.sessionsDeleteUser id) ∨ (Sweep.user id).Covers g :=
  h.deleteUser rfl (fun _ ha _ => ha) rfl

theorem sessionDelete {tokenHash : Bytes} :
    g.Holds (s.sessionDelete tokenHash) ∨ (Sweep.session tokenHash).Covers g := by
  cases g with
  | signIn =>
    obtain ⟨r, hr, rfl, huser⟩ := h
    by_cases hid : r.tokenHash = tokenHash
    · exact .inr hid.symm
    · exact .inl ⟨r, by simpa [Store.sessionDelete, hr] using hid, rfl, huser⟩
  | server | assignment => exact .inl h

theorem serverDelete : g.Holds (s.serverDelete id).2 ∨ (s.serverDelete id).1 = .ok () ∧ (Sweep.server id).Covers g := by
  unfold Store.serverDelete
  split
  swap
  · exact .inl h
  cases g with
  | signIn => exact .inl h
  | server serverId =>
    obtain ⟨v, hv, rfl⟩ := h
    by_cases hid : v.id = id
    · exact .inr ⟨rfl, hid.symm⟩
    · exact .inl ⟨v, by simpa [Table.delete, hv] using hid, rfl⟩
  | assignment userId serverId =>
    by_cases hid : serverId = id
    · exact .inr ⟨rfl, hid.symm⟩
    · exact .inl (List.mem_filter.2 ⟨h, by simpa using hid⟩)

theorem setAssignments {userId : Int} {ids : List Int} :
    g.Holds (s.setAssignments userId ids).2 ∨ (∃ n, (s.setAssignments userId ids).1 = .ok n) ∧
      ∃ serverId, g = .assignment userId serverId ∧ serverId ∉ ids := by
  unfold Store.setAssignments
  split
  swap
  · exact .inl h
  simp only []
  split
  · exact .inl h
  cases g with
  | signIn | server => exact .inl h
  | assignment userId' serverId =>
    by_cases hid : userId' = userId ∧ serverId ∉ ids
    · exact .inr ⟨⟨_, rfl⟩, serverId, by rw [hid.1], hid.2⟩
    · refine .inl (List.mem_filter.2 ⟨List.mem_append_left _ h, ?_⟩)
      simp only [not_and, not_not] at hid
      by_cases hu : userId' = userId
      · simp [hu, List.mem_dedup, hid hu]
      · simp [hu]

theorem sessionsPurge {now : Int} :
    g.Holds (s.sessionsPurge now) ∨ ∃ tokenHash userId, g = .signIn tokenHash userId := by
  cases g with
  | signIn tokenHash userId => exact .inr ⟨tokenHash, userId, rfl⟩
  | server | assignment => exact .inl h

end Ground.Holds

/-! ## The calls -/

/-- The two ways a fact goes that no sweep is due for. -/
inductive Unswept (before : List Int) : Call → Ground → Prop
  | purged {tokenHash : Bytes} {userId : Int} : Unswept before .sessionsPurge (.signIn tokenHash userId)
  | unread {userId serverId : Int} {ids : List Int} (gone : serverId ∉ ids) (unread : serverId ∉ before) :
      Unswept before (.setAssignments userId ids) (.assignment userId serverId)

variable {m : Holder} {w : World} {a : App} {g : Ground}

/-- The calls that take rows of the three tables away. -/
def Call.removes : Call → Bool
  | .sessionsPurge | .replaceWith _ => true
  | c => c.tag == .revoke

variable {c : Call} {s' : Store}

theorem Ground.Holds.answer (h : g.Holds a.store) (hc : c.removes = false) : g.Holds (App.answer m w c a).2.store := by
  have hkeeps := App.keeps_answer m w c a
  cases c with
  | sessionCreate =>
    simp only [App.answer, App.write, Store.sessionCreate]
    split
    · split
      · exact h
      · exact h.mono (by simp) (.refl _) (by simp)
    · exact h
  | edit e =>
    have hextends := a.store.extends_edit w.randoms e
    exact h.mono (by rw [← hextends.sessions_eq]; exact List.Subset.refl _) hextends.servers hextends.assignments
  | _ =>
    first
      | exact Bool.noConfusion hc
      | exact h.congr (hkeeps.sessions rfl) (hkeeps.servers rfl) (hkeeps.assignments rfl)

theorem holds_or_due (before : List Int) (c : Call) (h : g.Holds a.store) :
    g.Holds (App.answer m w c a).2.store ∨ (∃ v ∈ due before ⟨c, (App.answer m w c a).1⟩, v.Covers g) ∨
      Unswept before c g := by
  cases hc : c.removes with
  | false => exact .inl (h.answer hc)
  | true =>
    cases c with
    | sessionDelete tokenHash => exact h.sessionDelete.imp_right fun hw => .inl ⟨_, List.mem_singleton_self _, hw⟩
    | sessionsDeleteUser id => exact h.sessionsDeleteUser.imp_right fun hw => .inl ⟨_, List.mem_singleton_self _, hw⟩
    | sessionsPurge =>
      refine h.sessionsPurge.imp_right ?_
      rintro ⟨tokenHash, userId, rfl⟩
      exact .inr .purged
    | replaceWith store => exact .inr (.inl ⟨.all, List.mem_singleton_self _, trivial⟩)
    | userDelete id =>
      refine h.userDelete.imp_right fun hdue => .inl ?_
      simp only [App.answer, App.write, hdue.1]
      exact ⟨_, List.mem_singleton_self _, hdue.2⟩
    | userClearSid id =>
      refine h.userClearSid.imp_right fun hdue => .inl ?_
      simp only [App.answer, App.write, hdue.1]
      exact ⟨_, List.mem_singleton_self _, hdue.2⟩
    | serverDelete id =>
      refine h.serverDelete.imp_right fun hdue => .inl ?_
      simp only [App.answer, App.write, hdue.1]
      exact ⟨_, List.mem_singleton_self _, hdue.2⟩
    | setAssignments userId ids =>
      refine h.setAssignments.imp_right ?_
      rintro ⟨⟨n, hok⟩, serverId, rfl, hgone⟩
      by_cases hread : serverId ∈ before
      · refine .inl ⟨.userServer userId serverId, ?_, rfl, rfl⟩
        simp only [App.answer, App.write, hok]
        exact List.mem_map.2 ⟨serverId, List.mem_filter.2 ⟨hread, by simpa using hgone⟩, rfl⟩
      · exact .inr (.unread hgone hread)
    | _ => exact Bool.noConfusion hc

/-! ## What does not come back -/

/-- A sign-in or a server that was there and is gone. -/
def Ground.Spent (s : Store) : Ground → Prop
  | signIn tokenHash userId => ¬ (signIn tokenHash userId).Holds s
  | server serverId => ¬ (server serverId).Holds s ∧ serverId ≤ s.servers.seq
  | assignment _ _ => False

variable {s : Store}

theorem Ground.Spent.not_holds (h : g.Spent s) : ¬ g.Holds s := by
  cases g with
  | signIn => exact h
  | server => exact h.1
  | assignment => exact h.elim

/-- No session is added, and every server is one that was there, or has a later id. -/
structure Store.Sheds (s s' : Store) : Prop where
  sessions : s'.sessions ⊆ s.sessions
  servers : ∀ v' ∈ s'.servers.rows, (∃ v ∈ s.servers.rows, v.id = v'.id) ∨ s.servers.seq < v'.id
  seq : s.servers.seq ≤ s'.servers.seq

theorem Store.Sheds.of_servers_eq (hsessions : s'.sessions ⊆ s.sessions) (hservers : s'.servers = s.servers) :
    s.Sheds s' where
  sessions := hsessions
  servers v' hv' := .inl ⟨v', by rw [← hservers]; exact hv', rfl⟩
  seq := by rw [hservers]

theorem Ground.Spent.sheds (h : g.Spent s) (hsheds : s.Sheds s') : g.Spent s' := by
  cases g with
  | signIn =>
    rintro ⟨r, hr, hrow⟩
    exact h ⟨r, hsheds.sessions hr, hrow⟩
  | server serverId =>
    refine ⟨?_, h.2.trans hsheds.seq⟩
    rintro ⟨v', hv', rfl⟩
    rcases hsheds.servers v' hv' with ⟨v, hv, hid⟩ | hlater
    · exact h.1 ⟨v, hv, hid⟩
    · exact absurd h.2 (by omega)
  | assignment => exact h

theorem sheds_answer (hc : c.renews = false) : a.store.Sheds (App.answer m w c a).2.store := by
  have hkeeps := App.keeps_answer m w c a
  cases c with
  | edit e =>
    have hextends := a.store.extends_edit w.randoms e
    refine ⟨?_, hextends.servers.fresh, hextends.servers.seq⟩
    exact fun r hr => hextends.sessions_eq ▸ hr
  | serverDelete id =>
    simp only [App.answer, App.write, Store.serverDelete]
    split
    · refine ⟨List.Subset.refl _, fun v hv => .inl ⟨v, List.mem_of_mem_filter hv, rfl⟩, Int.le_refl _⟩
    · exact .of_servers_eq (List.Subset.refl _) rfl
  | _ =>
    first
      | exact Bool.noConfusion hc
      | exact .of_servers_eq (hkeeps.fewer rfl) (hkeeps.servers rfl)

end WebAccess
