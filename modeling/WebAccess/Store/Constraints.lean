/-
What the schema of the database says of servers, groups and assignments: names that are told apart
without their case, groups that exist, and one assignment of a server to a user. Every function of
the store keeps it. With it, replacing the assignments of a user is exact.
-/
import Mathlib
import WebAccess.Lib.Unique
import WebAccess.Store.Tables

namespace WebAccess

open Codec Wire

namespace Store

/-- The constraints of the schema on servers, groups and assignments: `UNIQUE COLLATE NOCASE`,
`REFERENCES server_groups(id)`, `PRIMARY KEY (user_id, server_id)`. -/
structure Constraints (s : Store) : Prop where
  serverNames : s.servers.Unique fun v => nocase v.name
  groupNames : s.groups.Unique fun g => nocase g.name
  groupRefs : ∀ v ∈ s.servers.rows, ∀ id, v.groupId = some id → ∃ g ∈ s.groups.rows, g.id = id
  assignmentKey : s.assignments.Nodup

variable {s : Store}

namespace Constraints

theorem empty : Constraints {} := ⟨Table.unique_empty, Table.unique_empty, nofun, List.nodup_nil⟩

theorem of_same {s' : Store} (h : s.Constraints) (hservers : s'.servers = s.servers) (hgroups : s'.groups = s.groups)
    (hassignments : s'.assignments = s.assignments) : s'.Constraints where
  serverNames := hservers ▸ h.serverNames
  groupNames := hgroups ▸ h.groupNames
  groupRefs := by rw [hservers, hgroups]; exact h.groupRefs
  assignmentKey := hassignments ▸ h.assignmentKey

theorem of_groups {groups : Table Group.id} (h : s.Constraints) (hnames : groups.Unique fun g => nocase g.name)
    (hkept : ∀ g ∈ s.groups.rows, ∃ g' ∈ groups.rows, g'.id = g.id) : Constraints { s with groups } where
  serverNames := h.serverNames
  groupNames := hnames
  groupRefs v hv id hid := by
    obtain ⟨g, hg, rfl⟩ := h.groupRefs v hv id hid
    exact hkept g hg
  assignmentKey := h.assignmentKey

theorem of_servers {servers : Table Server.id} (h : s.Constraints) (hnames : servers.Unique fun v => nocase v.name)
    (hrefs : ∀ v ∈ servers.rows, ∀ id, v.groupId = some id → ∃ g ∈ s.groups.rows, g.id = id) :
    Constraints { s with servers } :=
  ⟨hnames, h.groupNames, hrefs, h.assignmentKey⟩

/-! ## Groups -/

theorem kept_update {ρ : Type} {id : ρ → Int} {t : Table id} {n : Int} {f : ρ → ρ} {hf : ∀ r, id (f r) = id r} :
    ∀ r ∈ t.rows, ∃ r' ∈ (t.update (id · == n) f hf).rows, id r' = id r := by
  intro r hr
  by_cases hid : id r = n
  · exact ⟨f r, Table.mem_update_one.2 (.inl ⟨r, hr, hid, rfl⟩), hf r⟩
  · exact ⟨r, Table.mem_update_one.2 (.inr ⟨hr, hid⟩), rfl⟩

theorem groupInsert (h : s.Constraints) (name : Text) : (s.groupInsert name).2.Constraints := by
  unfold Store.groupInsert
  split
  · exact h
  · rename_i hfree
    simp only [List.any_eq_true, not_exists, not_and, beq_iff_eq] at hfree
    exact h.of_groups (h.groupNames.insert fun g hg => hfree g hg) fun g hg => ⟨g, Table.mem_insert.2 (.inl hg), rfl⟩

theorem groupRename (h : s.Constraints) (id : Int) (name : Text) : (s.groupRename id name).2.Constraints := by
  unfold Store.groupRename
  split
  · exact h
  rename_i hfree
  split
  · refine h.of_groups (h.groupNames.update_one fun g hg hid g' hg' hname => ?_) kept_update
    by_contra hne
    exact hfree (List.any_eq_true.2 ⟨g', hg', by simp [hne, hname]⟩)
  · exact h

theorem groupOrder (h : s.Constraints) (ids : List Int) : (s.groupOrder ids).Constraints := by
  -- each place is an update of one row that keeps its name
  suffices hfold : ∀ (places : List (Int × Nat)) (t : Table Group.id), t.Unique (fun g => nocase g.name) →
      (∀ g ∈ s.groups.rows, ∃ g' ∈ t.rows, g'.id = g.id) →
      (places.foldl (fun t p => t.update (·.id == p.1) (fun g => { g with sort := p.2 }) fun _ => rfl) t).Unique
        (fun g => nocase g.name) ∧
      ∀ g ∈ s.groups.rows, ∃ g' ∈ (places.foldl (fun t p => t.update (·.id == p.1) (fun g => { g with sort := p.2 })
        fun _ => rfl) t).rows, g'.id = g.id by
    obtain ⟨hnames, hkept⟩ := hfold ids.zipIdx s.groups h.groupNames fun g hg => ⟨g, hg, rfl⟩
    exact h.of_groups hnames hkept
  intro places
  induction places with
  | nil => exact fun t hnames hkept => ⟨hnames, hkept⟩
  | cons p places ih =>
    intro t hnames hkept
    refine ih _ (hnames.update_same fun _ _ _ => rfl) fun g hg => ?_
    obtain ⟨g', hg', hid⟩ := hkept g hg
    obtain ⟨g'', hg'', hid'⟩ := kept_update g' hg'
    exact ⟨g'', hg'', hid'.trans hid⟩

theorem groupDelete (h : s.Constraints) (id : Int) : (s.groupDelete id).2.Constraints := by
  simp only [Store.groupDelete]
  split
  · exact h
  rename_i hunused
  split
  · refine ⟨h.serverNames, h.groupNames.delete, fun v hv n hn => ?_, h.assignmentKey⟩
    obtain ⟨g, hg, rfl⟩ := h.groupRefs v hv n hn
    refine ⟨g, Table.mem_delete.2 ⟨hg, ?_⟩, rfl⟩
    -- no server is left in a group that is deleted
    by_contra hid
    rw [Bool.not_eq_false, beq_iff_eq] at hid
    exact hunused (List.countP_pos_iff.2 ⟨v, hv, by rw [hn, hid]; exact beq_self_eq_true _⟩)
  · exact h

/-! ## Servers -/

theorem fits {name : Text} {except groupId : Option Int} (h : s.serverFits name except groupId = .ok ()) :
    (∀ v ∈ s.servers.rows, nocase v.name = nocase name → except = some v.id) ∧
      ∀ id, groupId = some id → ∃ g ∈ s.groups.rows, g.id = id := by
  unfold serverFits at h
  split at h
  · cases h
  rename_i hfree
  refine ⟨fun v hv hname => ?_, fun id hid => ?_⟩
  · by_contra hne
    exact hfree (List.any_eq_true.2 ⟨v, hv, by simp [hname, hne]⟩)
  · subst hid
    simp only [] at h
    split at h
    · rename_i hany
      simpa using hany
    · cases h

theorem serverCreate (h : s.Constraints) (name host : Text) (port : Nat) (groupId : Option Int) (domain : Option Text)
    (incarnation : Int) : (s.serverCreate name host port groupId domain incarnation).2.Constraints := by
  unfold Store.serverCreate
  split
  · exact h
  · rename_i hfits
    obtain ⟨hfree, hgroup⟩ := fits hfits
    refine h.of_servers (h.serverNames.insert fun v hv hname => nomatch hfree v hv hname) fun v hv => ?_
    rcases Table.mem_insert.1 hv with hv | rfl
    · exact h.groupRefs v hv
    · exact hgroup

theorem serverUpdate (h : s.Constraints) (id : Int) (name host : Text) (port : Nat) (groupId : Option Int)
    (domain : Option Text) : (s.serverUpdate id name host port groupId domain).2.Constraints := by
  unfold Store.serverUpdate
  split
  · exact h
  rename_i hfits
  obtain ⟨hfree, hgroup⟩ := fits hfits
  split
  · refine h.of_servers (h.serverNames.update_one fun v _ _ v' hv' hname =>
      (Option.some.inj (hfree v' hv' hname.symm)).symm) fun v hv => ?_
    rcases Table.mem_update_one.1 hv with ⟨v₀, -, -, rfl⟩ | ⟨hv, -⟩
    · exact hgroup
    · exact h.groupRefs v hv
  · exact h

theorem serverDelete (h : s.Constraints) (id : Int) : (s.serverDelete id).2.Constraints := by
  unfold Store.serverDelete
  split
  · exact ⟨h.serverNames.delete, h.groupNames, fun v hv => h.groupRefs v (Table.mem_delete.1 hv).1,
      h.assignmentKey.filter _⟩
  · exact h

/-! ## Imports -/

end Constraints

/-- What a row of an import makes of the groups: the one it names is there, and is the only one that may be new. -/
structure Grouped (s : Store) (row : ImportRow) (groupId : Option Int) (s' : Store) : Prop where
  rest : s' = { s with groups := s'.groups }
  kept : s.groups.rows <+: s'.groups.rows
  new : ∀ g ∈ s'.groups.rows, g ∈ s.groups.rows ∨ row.group = some (some g.name)
  named : ∀ name, row.group = some (some name) →
    ∃ g ∈ s'.groups.rows, nocase g.name = nocase name ∧ groupId = some g.id
  unnamed : row.group.join = none → groupId = none
  constraints : s.Constraints → s'.Constraints

theorem grouped_importGroup (s : Store) (row : ImportRow) :
    s.Grouped row (s.importGroup row).1 (s.importGroup row).2 := by
  unfold importGroup
  cases hgroup : row.group.join with
  | none =>
    refine ⟨rfl, List.prefix_rfl, fun g hg => .inl hg, fun name hname => ?_, fun _ => rfl, id⟩
    rw [hname] at hgroup
    cases hgroup
  | some name =>
    have hnamed : row.group = some (some name) := by simpa [Option.join_eq_some_iff] using hgroup
    have hthis : ∀ name', row.group = some (some name') → name' = name := fun name' h => by
      rw [hnamed] at h
      exact (Option.some.inj (Option.some.inj h)).symm
    simp only []
    cases hfound : s.groups.rows.find? fun g => nocase g.name == nocase name with
    | some g =>
      have hsame : nocase g.name = nocase name := by simpa using List.find?_some hfound
      refine ⟨rfl, List.prefix_rfl, fun g hg => .inl hg, fun name' h => ?_, fun h => ?_, id⟩
      · obtain rfl := hthis name' h
        exact ⟨g, List.mem_of_find?_eq_some hfound, hsame, rfl⟩
      · rw [hgroup] at h
        cases h
    | none =>
      have hfree : ¬ (s.groups.rows.any fun g => nocase g.name == nocase name) = true := by simpa using hfound
      have hinsert := fun h : s.Constraints => h.groupInsert name
      simp only [groupInsert, if_neg hfree] at hinsert ⊢
      refine ⟨rfl, List.prefix_append _ _, fun g hg => ?_, fun name' h => ?_, fun h => ?_, hinsert⟩
      · exact (Table.mem_insert.1 hg).imp id fun h => by rw [h, hnamed]
      · obtain rfl := hthis name' h
        exact ⟨_, Table.mem_insert.2 (.inr rfl), rfl, rfl⟩
      · rw [hgroup] at h
        cases h

theorem Grouped.exists {s' : Store} {row : ImportRow} {groupId : Option Int} (h : s.Grouped row groupId s') {id : Int}
    (hid : groupId = some id) : ∃ g ∈ s'.groups.rows, g.id = id := by
  cases hgroup : row.group.join with
  | none => exact nomatch (h.unnamed hgroup).symm.trans hid
  | some name =>
    obtain ⟨g, hg, -, hname⟩ := h.named name (by simpa [Option.join_eq_some_iff] using hgroup)
    exact ⟨g, hg, Option.some.inj (hname.symm.trans hid)⟩

namespace Constraints

theorem importRow (h : s.Constraints) (row : ImportRow) (incarnation : Int) :
    (s.importRow row incarnation).2.Constraints := by
  have hgroup := s.grouped_importGroup row
  have hs := hgroup.constraints h
  unfold Store.importRow
  generalize s.importGroup row = r at hgroup hs ⊢
  obtain ⟨groupId, s₁⟩ := r
  simp only [] at hgroup hs ⊢
  split
  · rename_i v hfound
    refine hs.of_servers (hs.serverNames.update_same fun _ _ _ => rfl) fun v' hv' => ?_
    rcases Table.mem_update_one.1 hv' with ⟨v₀, hv₀, -, rfl⟩ | ⟨hv', -⟩
    · intro id hid
      simp only [] at hid
      split at hid
      · exact hgroup.exists hid
      · exact hs.groupRefs v₀ hv₀ id hid
    · exact hs.groupRefs v' hv'
  · rename_i hfree
    refine hs.of_servers (hs.serverNames.insert fun v hv hname => ?_) fun v hv => ?_
    · exact List.find?_eq_none.1 hfree v hv (beq_iff_eq.2 hname)
    · rcases Table.mem_insert.1 hv with hv | rfl
      · exact hs.groupRefs v hv
      · exact fun id hid => hgroup.exists hid

theorem serversImport {incarnations : Nat → Int} :
    ∀ {rows : List ImportRow} {s : Store}, s.Constraints → (s.serversImport incarnations rows).2.Constraints
  | [], _, h => h
  | row :: rows, _, h => (h.importRow row (incarnations rows.length)).serversImport

/-! ## Assignments -/

theorem userDelete (h : s.Constraints) (id : Int) : (s.userDelete id).2.Constraints := by
  unfold Store.userDelete
  split
  · exact ⟨h.serverNames, h.groupNames, h.groupRefs, h.assignmentKey.filter _⟩
  · exact h

variable {assignments : List (Int × Int)}

theorem of_assignments {credentials : List CredentialRow} (h : s.Constraints) (hkey : assignments.Nodup) :
    Constraints { s with assignments, credentials } :=
  ⟨h.serverNames, h.groupNames, h.groupRefs, hkey⟩

theorem nodup_add {userId : Int} {added : List Int} (h : assignments.Nodup) (hadded : added.Nodup)
    (hnew : ∀ id ∈ added, (userId, id) ∉ assignments) : (assignments ++ added.map fun id => (userId, id)).Nodup := by
  refine List.nodup_append.2 ⟨h, hadded.map fun _ _ heq => (Prod.mk.inj heq).2, fun a ha b hb => ?_⟩
  obtain ⟨id, hid, rfl⟩ := List.mem_map.1 hb
  rintro rfl
  exact hnew id hid ha

theorem nodup_assigned (h : s.assignments.Nodup) (userId : Int) : (s.assigned userId).Nodup := by
  refine (h.filter _).map_on fun a ha b hb heq => Prod.ext ?_ heq
  have hua := (List.mem_filter.1 ha).2
  have hub := (List.mem_filter.1 hb).2
  rw [beq_iff_eq] at hua hub
  exact hua.trans hub.symm

theorem copyAssignments (h : s.Constraints) (source target : Int) :
    (s.copyAssignments source target).2.Constraints := by
  simp only [Store.copyAssignments]
  split
  · refine h.of_assignments (nodup_add h.assignmentKey ((nodup_assigned h.assignmentKey source).filter _)
      fun id hid => ?_)
    simpa using (List.mem_filter.1 hid).2
  · exact h

theorem edit (h : s.Constraints) (incarnations : Nat → Int) : ∀ e : Edit, (s.edit incarnations e).2.Constraints
  | .userSetAdmin id admin => by
    show (s.userSetAdmin id admin).2.Constraints
    unfold Store.userSetAdmin
    split
    · exact h.of_same rfl rfl rfl
    · exact h
  | .copyAssignments source target => h.copyAssignments source target
  | .settingsWrite _ => h.of_same rfl rfl rfl
  | .serverCreate name host port groupId domain => h.serverCreate name host port groupId domain _
  | .serverUpdate id name host port groupId domain => h.serverUpdate id name host port groupId domain
  | .serversImport _ => h.serversImport
  | .groupCreate name => h.groupInsert name
  | .groupRename id name => h.groupRename id name
  | .groupOrder ids => h.groupOrder ids
  | .groupDelete id => h.groupDelete id

end Constraints

/-- The user and all the servers that `set_assignments` is given have a row. -/
def Existing (s : Store) (userId : Int) (ids : List Int) : Prop :=
  (∃ u ∈ s.users.rows, u.id = userId) ∧ ∀ id ∈ ids, ∃ v ∈ s.servers.rows, v.id = id

/-- An assignment that is not among the new ones. -/
def Removed (s : Store) (userId : Int) (ids : List Int) (serverId : Int) : Prop :=
  (userId, serverId) ∈ s.assignments ∧ serverId ∉ ids

instance (s : Store) (userId : Int) (ids : List Int) (serverId : Int) : Decidable (s.Removed userId ids serverId) :=
  inferInstanceAs (Decidable (_ ∧ _))

/-- What `set_assignments` leaves: the user's assignments are those given, with the credentials of the servers removed
gone, and nothing else has changed; the counts are of what was added and removed. -/
structure Replaced (s : Store) (userId : Int) (ids : List Int) (counts : Nat × Nat) (s' : Store) : Prop where
  own : ∀ id, (userId, id) ∈ s'.assignments ↔ id ∈ ids
  others : ∀ a : Int × Int, a.1 ≠ userId → (a ∈ s'.assignments ↔ a ∈ s.assignments)
  key : s'.assignments.Nodup
  credentials : s'.credentials = s.credentials.filter fun c =>
    !decide (c.userId = userId ∧ s.Removed userId ids c.serverId)
  added : counts.1 = (ids.toFinset \ (s.assigned userId).toFinset).card
  removed : counts.2 = ((s.assigned userId).toFinset \ ids.toFinset).card
  rest : s' = { s with assignments := s'.assignments, credentials := s'.credentials }

theorem replaced_of_nodup (hkey : s.assignments.Nodup) (userId : Int) (ids : List Int) :
    let added := ids.dedup.filter fun id => !(s.assigned userId).contains id
    let removed := (s.assigned userId).filter fun id => !ids.dedup.contains id
    s.Replaced userId ids (added.length, removed.length) { s with
      assignments := (s.assignments ++ added.map fun id => (userId, id)).filter fun a =>
        !(a.1 == userId && removed.contains a.2)
      credentials := s.credentials.filter fun c => !(c.userId == userId && removed.contains c.serverId) } := by
  intro added removed
  have hadded : ∀ id, id ∈ added ↔ id ∈ ids ∧ (userId, id) ∉ s.assignments := fun id => by
    simp [added, mem_assigned]
  have hremoved : ∀ id, id ∈ removed ↔ s.Removed userId ids id := fun id => by
    simp [removed, Removed, mem_assigned]
  have hkey' : (s.assignments ++ added.map fun id => (userId, id)).Nodup :=
    Constraints.nodup_add hkey ((List.nodup_dedup ids).filter _) fun id hid => ((hadded id).1 hid).2
  refine ⟨fun id => ?_, fun a ha => ?_, hkey'.filter _, ?_, ?_, ?_, rfl⟩
  · by_cases hid : id ∈ ids <;> by_cases hold : (userId, id) ∈ s.assignments <;>
      simp [hadded, hremoved, Removed, hid, hold]
  · simp only [List.mem_filter, List.mem_append, List.mem_map]
    constructor
    · rintro ⟨hold | ⟨id, -, rfl⟩, -⟩
      · exact hold
      · exact absurd rfl ha
    · exact fun hold => ⟨.inl hold, by simp [ha]⟩
  · refine List.filter_congr fun c _ => ?_
    by_cases hc : c.userId = userId <;> simp [hremoved, hc]
  · refine (List.toFinset_card_of_nodup ((List.nodup_dedup ids).filter _)).symm.trans (congrArg Finset.card ?_)
    ext id
    simp [mem_assigned]
  · refine (List.toFinset_card_of_nodup ((Constraints.nodup_assigned hkey userId).filter _)).symm.trans
      (congrArg Finset.card ?_)
    ext id
    simp [mem_assigned]

theorem Constraints.setAssignments (h : s.Constraints) (userId : Int) (ids : List Int) :
    (s.setAssignments userId ids).2.Constraints := by
  unfold Store.setAssignments
  split
  · simp only []
    split
    · exact h
    · exact h.of_assignments (replaced_of_nodup h.assignmentKey userId ids).key
  · exact h

/-- Replacing assignments is exact: what is missing is an error that changes nothing, and otherwise the user has
the listed servers and no other, keeps the credentials of every server that was not taken away, and nothing else
changes. -/
theorem set_assignments_exact (s : Store) (hkey : s.assignments.Nodup) (userId : Int) (ids : List Int) :
    (¬ s.Existing userId ids ∧ ∃ e, s.setAssignments userId ids = (.error e, s)) ∨
      (s.Existing userId ids ∧ ∃ counts s', s.setAssignments userId ids = (.ok counts, s') ∧
        s.Replaced userId ids counts s') := by
  unfold setAssignments
  split
  swap
  · rename_i hnone
    refine .inl ⟨fun hex => hnone ?_, _, rfl⟩
    obtain ⟨u, hu, hid⟩ := hex.1
    exact List.any_eq_true.2 ⟨u, hu, beq_iff_eq.2 hid⟩
  rename_i huser
  simp only []
  split
  · rename_i id hmissing
    refine .inl ⟨fun hex => ?_, _, rfl⟩
    obtain ⟨v, hv, hid⟩ := hex.2 id (List.mem_dedup.1 (List.mem_of_find?_eq_some hmissing))
    have hnot := List.find?_some hmissing
    simp only [Bool.not_eq_true', List.any_eq_false, beq_iff_eq] at hnot
    exact hnot v hv hid
  · rename_i hall
    refine .inr ⟨⟨by simpa using huser, fun id hid => ?_⟩, _, _, rfl, replaced_of_nodup hkey userId ids⟩
    have hthere := List.find?_eq_none.1 hall id (List.mem_dedup.2 hid)
    simpa using hthere

/-- A user who is assigned two servers is left with one of them and a third. -/
theorem set_assignments_exact_two :
    let user : User := { id := 1, username := [], incarnation := 0 }
    let server : Int → Server :=
      fun id => { id, name := number id, host := [], port := 3389, incarnation := 0 }
    let s : Store := {
      users := ⟨[user], 1, by simp [user], by simp⟩
      servers := ⟨[server 1, server 2, server 3], 3, by simp [server], by simp [server]⟩
      assignments := [(1, 1), (1, 2)] }
    ∃ counts s', s.setAssignments 1 [3, 2, 3] = (.ok counts, s') ∧ s.Replaced 1 [3, 2, 3] counts s' := by
  intro user server s
  refine ((set_assignments_exact s (by decide) 1 [3, 2, 3]).resolve_left fun h => h.1 ?_).2
  exact ⟨⟨user, by simp [s], rfl⟩, by simp [s, server]⟩

end Store

end WebAccess
