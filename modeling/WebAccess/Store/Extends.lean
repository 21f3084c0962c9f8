/-
What an administrator's edit leaves. It takes no row away: servers keep their ids and get new ones
only, assignments are only added, users change in nothing but whether they are administrators, and
the tables an edit is not about are as they were.
-/
import WebAccess.Store.Tables

namespace WebAccess

open Codec Wire

namespace Table

variable {ρ : Type} {id : ρ → Int}

/-- Every row is there under its id, and a row that was not there has a later one. -/
structure Extends (t t' : Table id) : Prop where
  kept : ∀ r ∈ t.rows, ∃ r' ∈ t'.rows, id r' = id r
  fresh : ∀ r' ∈ t'.rows, (∃ r ∈ t.rows, id r = id r') ∨ t.seq < id r'
  seq : t.seq ≤ t'.seq

namespace Extends

variable {t t' t'' : Table id}

theorem refl (t : Table id) : t.Extends t where
  kept r hr := ⟨r, hr, rfl⟩
  fresh r hr := .inl ⟨r, hr, rfl⟩
  seq := Int.le_refl _

theorem trans (h : t.Extends t') (h' : t'.Extends t'') : t.Extends t'' where
  kept r hr := by
    obtain ⟨r', hr', hid⟩ := h.kept r hr
    obtain ⟨r'', hr'', hid'⟩ := h'.kept r' hr'
    exact ⟨r'', hr'', hid'.trans hid⟩
  fresh r'' hr'' := by
    rcases h'.fresh r'' hr'' with ⟨r', hr', hid⟩ | hlater
    · rcases h.fresh r' hr' with ⟨r, hr, hid'⟩ | hlater
      · exact .inl ⟨r, hr, hid'.trans hid⟩
      · exact .inr (by rw [← hid]; exact hlater)
    · exact .inr (Int.lt_of_le_of_lt h.seq hlater)
  seq := Int.le_trans h.seq h'.seq

theorem update {p : ρ → Bool} {f : ρ → ρ} {hf : ∀ r, id (f r) = id r} : t.Extends (t.update p f hf) where
  kept r hr := by
    refine ⟨if p r then f r else r, List.mem_map_of_mem hr, ?_⟩
    split
    · exact hf r
    · rfl
  fresh r' hr' := by
    obtain ⟨r, hr, rfl⟩ := List.mem_map.1 hr'
    refine .inl ⟨r, hr, ?_⟩
    split
    · exact (hf r).symm
    · rfl
  seq := Int.le_refl _

theorem insert {row : Int → ρ} {hrow : ∀ n, id (row n) = n} : t.Extends (t.insert row hrow) where
  kept r hr := ⟨r, List.mem_append_left _ hr, rfl⟩
  fresh r' hr' := by
    rcases List.mem_append.1 hr' with hr' | hr'
    · exact .inl ⟨r', hr', rfl⟩
    · rw [List.mem_singleton.1 hr', hrow]
      exact .inr (by omega)
  seq := show t.seq ≤ t.seq + 1 by omega

end Extends

end Table

/-- A user but for whether they are an administrator. -/
def User.unranked (u : User) : User := { u with isAdmin := false }

/-- A database with the tables an edit is about as they are in another. -/
def Store.besides (s s' : Store) : Store :=
  { s' with
    users := s.users, groups := s.groups, servers := s.servers, assignments := s.assignments, settings := s.settings }

structure Store.Extends (s s' : Store) : Prop where
  servers : s.servers.Extends s'.servers
  assignments : s.assignments ⊆ s'.assignments
  users : s'.users.rows.map User.unranked = s.users.rows.map User.unranked
  sequence : s'.users.seq = s.users.seq
  rest : s.besides s' = s

namespace Store.Extends

variable {s s' s'' : Store}

theorem refl (s : Store) : s.Extends s := ⟨.refl _, List.Subset.refl _, rfl, rfl, rfl⟩

theorem trans (h : s.Extends s') (h' : s'.Extends s'') : s.Extends s'' where
  servers := h.servers.trans h'.servers
  assignments := List.Subset.trans h.assignments h'.assignments
  users := h'.users.trans h.users
  sequence := h'.sequence.trans h.sequence
  rest := by
    have hrest : s.besides (s'.besides s'') = s := by rw [h'.rest, h.rest]
    exact hrest

theorem same {β : Type} (h : s.Extends s') (f : Store → β) : f (s.besides s') = f s := congrArg f h.rest

theorem sessions_eq (h : s.Extends s') : s'.sessions = s.sessions := h.same Store.sessions

theorem mem_users (h : s.Extends s') {u' : User} (hu' : u' ∈ s'.users.rows) :
    ∃ u ∈ s.users.rows, u.unranked = u'.unranked :=
  List.mem_map.1 (h.users ▸ List.mem_map_of_mem hu')

theorem groups_only {groups : Table Group.id} : s.Extends { s with groups } :=
  ⟨.refl _, List.Subset.refl _, rfl, rfl, rfl⟩

theorem servers_only {servers : Table Server.id} (h : s.servers.Extends servers) : s.Extends { s with servers } :=
  ⟨h, List.Subset.refl _, rfl, rfl, rfl⟩

variable {id : Int} {name : Text}

theorem userSetAdmin {admin : Bool} : s.Extends (s.userSetAdmin id admin).2 := by
  unfold Store.userSetAdmin
  split
  · refine ⟨.refl _, List.Subset.refl _, ?_, rfl, rfl⟩
    simp only [Table.update, List.map_map]
    refine List.map_congr_left fun u _ => ?_
    simp only [Function.comp]
    split <;> rfl
  · exact refl s

theorem copyAssignments {source target : Int} : s.Extends (s.copyAssignments source target).2 := by
  simp only [Store.copyAssignments]
  split
  · exact ⟨.refl _, List.subset_append_left _ _, rfl, rfl, rfl⟩
  · exact refl s

theorem groupInsert : s.Extends (s.groupInsert name).2 := by
  unfold Store.groupInsert
  split
  · exact refl s
  · exact groups_only

theorem groupRename : s.Extends (s.groupRename id name).2 := by
  unfold Store.groupRename
  split
  · exact refl s
  split
  · exact groups_only
  · exact refl s

theorem groupDelete : s.Extends (s.groupDelete id).2 := by
  simp only [Store.groupDelete]
  split
  · exact refl s
  split
  · exact groups_only
  · exact refl s

variable {host : Text} {port : Nat} {groupId : Option Int} {domain : Option Text} {incarnation : Int}

theorem serverCreate : s.Extends (s.serverCreate name host port groupId domain incarnation).2 := by
  unfold Store.serverCreate
  split
  · exact refl s
  · exact servers_only .insert

theorem serverUpdate : s.Extends (s.serverUpdate id name host port groupId domain).2 := by
  unfold Store.serverUpdate
  split
  · exact refl s
  split
  · exact servers_only .update
  · exact refl s

theorem importRow {row : ImportRow} : s.Extends (s.importRow row incarnation).2 := by
  have hgroup : s.Extends (s.importGroup row).2 := by
    unfold Store.importGroup
    split
    · exact refl s
    split
    · exact refl s
    · exact groupInsert
  simp only [Store.importRow]
  split
  · exact hgroup.trans (servers_only .update)
  · exact hgroup.trans (servers_only .insert)

theorem serversImport {incarnations : Nat → Int} :
    ∀ {rows : List ImportRow} {s : Store}, s.Extends (s.serversImport incarnations rows).2
  | [], s => refl s
  | _ :: _, _ => importRow.trans serversImport

end Store.Extends

theorem Store.extends_edit (s : Store) (incarnations : Nat → Int) (e : Edit) : s.Extends (s.edit incarnations e).2 :=
  match e with
  | .userSetAdmin .. => .userSetAdmin
  | .copyAssignments .. => .copyAssignments
  | .settingsWrite _ => ⟨.refl _, List.Subset.refl _, rfl, rfl, rfl⟩
  | .serverCreate .. => .serverCreate
  | .serverUpdate .. => .serverUpdate
  | .serversImport _ => .serversImport
  | .groupCreate _ => .groupInsert
  | .groupRename .. => .groupRename
  | .groupOrder _ => .groups_only
  | .groupDelete _ => .groupDelete

end WebAccess
