/-
What an import of servers does to the database. One row makes or changes the server of its name and
the group it names, and nothing else; rows with different names do not meet in a server, so the rows
of a file that was read do each what they would do alone. Importing them again finds everything as
they say.
-/
import WebAccess.Serve.Csv
import WebAccess.Store.Constraints

namespace WebAccess.Store

open Codec Wire

def serverNamed (s : Store) (name : Text) : Option Server :=
  s.servers.rows.find? fun v => nocase v.name == nocase name

variable {v : Server} {incarnation : Int} {groupId : Option Int} {s' : Store} {counts : Nat × Nat}

variable {name : Text} {rows : List ImportRow} {s₀ : Store}

theorem serverNamed_eq_some {s : Store} (h : s.Constraints) :
    s.serverNamed name = some v ↔ v ∈ s.servers.rows ∧ nocase v.name = nocase name :=
  h.serverNames.find?_eq_some

/-- What a row says of its server: what it gives is so, and what it leaves open is as it was before, or a
default. -/
structure Says (s : Store) (row : ImportRow) (s' : Store) (v : Server) : Prop where
  host : v.host = row.host
  port : v.port = row.port.getD ((s.serverNamed row.name).elim 3389 Server.port)
  domain : v.domain = row.domain.getD ((s.serverNamed row.name).bind Server.domain)
  kept : row.group = none → v.groupId = (s.serverNamed row.name).bind Server.groupId
  cleared : row.group = some none → v.groupId = none
  grouped : ∀ name, row.group = some (some name) →
    ∃ g ∈ s'.groups.rows, nocase g.name = nocase name ∧ v.groupId = some g.id
  old : ∀ v₀, s.serverNamed row.name = some v₀ → v.id = v₀.id ∧ v.name = v₀.name ∧ v.incarnation = v₀.incarnation
  new : s.serverNamed row.name = none → v.name = row.name

/-- The numbers of new and of existing names. -/
def newAndOld (s : Store) (rows : List ImportRow) : Nat × Nat :=
  (rows.countP fun row => (s.serverNamed row.name).isNone, rows.countP fun row => (s.serverNamed row.name).isSome)

/-- Rows have been imported: every row's server and group are there, and told apart from all others by the
constraints; the servers that are not named are those there were, the groups that were there are, and the new
ones are named. -/
structure Imported (s : Store) (rows : List ImportRow) (counts : Nat × Nat) (s' : Store) : Prop where
  constraints : s'.Constraints
  servers : ∀ row ∈ rows, ∃ v ∈ s'.servers.rows, nocase v.name = nocase row.name ∧ s.Says row s' v
  unnamed : ∀ v : Server, (∀ row ∈ rows, nocase row.name ≠ nocase v.name) →
    (v ∈ s'.servers.rows ↔ v ∈ s.servers.rows)
  groups : s.groups.rows <+: s'.groups.rows
  named : ∀ row ∈ rows, ∀ name, row.group = some (some name) → ∃ g ∈ s'.groups.rows, nocase g.name = nocase name
  new : ∀ g ∈ s'.groups.rows, g ∈ s.groups.rows ∨ ∃ row ∈ rows, row.group = some (some g.name)
  counts : counts = s.newAndOld rows
  rest : s' = { s with groups := s'.groups, servers := s'.servers }

/-! ## One row -/

variable {s : Store} {row : ImportRow}

def written (row : ImportRow) (groupId : Option Int) (v : Server) : Server :=
  { v with
    host := row.host
    port := row.port.getD v.port
    groupId := if row.group.isSome then groupId else v.groupId
    domain := if row.domain.isSome then row.domain.join else v.domain }

theorem written_id (row : ImportRow) (groupId : Option Int) (v : Server) : (written row groupId v).id = v.id := rfl

def fresh (row : ImportRow) (groupId : Option Int) (incarnation id : Int) : Server :=
  { id, name := row.name, host := row.host, port := row.port.getD 3389, groupId,
    domain := row.domain.join, incarnation }

theorem fresh_id (row : ImportRow) (groupId : Option Int) (incarnation id : Int) :
    (fresh row groupId incarnation id).id = id := rfl

theorem servers_importGroup (s : Store) (row : ImportRow) : (s.importGroup row).2.servers = s.servers := by
  rw [(s.grouped_importGroup row).rest]

theorem find_importGroup {found : Option Server} (h : s.serverNamed row.name = found) :
    ((s.importGroup row).2.servers.rows.find? fun v => nocase v.name == nocase row.name) = found := by
  rw [servers_importGroup]
  exact h

theorem importRow_old (h : s.serverNamed row.name = some v) :
    s.importRow row incarnation = (false, { (s.importGroup row).2 with
      servers := s.servers.update (·.id == v.id) (written row (s.importGroup row).1) (written_id row _) }) := by
  simp only [importRow, find_importGroup h, ← s.servers_importGroup row]
  rfl

theorem importRow_new (h : s.serverNamed row.name = none) :
    s.importRow row incarnation = (true, { (s.importGroup row).2 with
      servers := s.servers.insert (fresh row (s.importGroup row).1 incarnation) (fresh_id row _ _) }) := by
  simp only [importRow, find_importGroup h, ← s.servers_importGroup row]
  rfl

theorem says_written (hgroup : s.Grouped row groupId s') (hold : s.serverNamed row.name = some v) :
    s.Says row s' (written row groupId v) where
  host := rfl
  port := by simp [written, hold]
  domain := by cases hd : row.domain <;> simp [written, hold, hd]
  kept hg := by simp [written, hold, hg]
  cleared hg := by simp [written, hg, hgroup.unnamed]
  grouped name hg := by
    obtain ⟨g, hmem, hname, hid⟩ := hgroup.named name hg
    exact ⟨g, hmem, hname, by simp [written, hg, hid]⟩
  old v₀ hv₀ := by
    cases hold.symm.trans hv₀
    exact ⟨rfl, rfl, rfl⟩
  new hnone := nomatch hold.symm.trans hnone

theorem says_fresh {id : Int} (hgroup : s.Grouped row groupId s') (hnone : s.serverNamed row.name = none) :
    s.Says row s' (fresh row groupId incarnation id) where
  host := rfl
  port := by simp [fresh, hnone]
  domain := by cases hd : row.domain <;> simp [fresh, hnone, hd]
  kept hg := by simp [fresh, hnone, hgroup.unnamed, hg]
  cleared hg := by simp [fresh, hg, hgroup.unnamed]
  grouped name hg := hgroup.named name hg
  old v₀ hv₀ := nomatch hnone.symm.trans hv₀
  new _ := rfl

theorem Grouped.imported {servers : Table Server.id} (hgroup : s.Grouped row groupId s')
    (hafter : Constraints { s' with servers })
    (hrow : ∃ v ∈ servers.rows, nocase v.name = nocase row.name ∧ s.Says row s' v)
    (hother : ∀ v : Server, nocase row.name ≠ nocase v.name → (v ∈ servers.rows ↔ v ∈ s.servers.rows))
    (hcounts : counts = s.newAndOld [row]) : s.Imported [row] counts { s' with servers } where
  constraints := hafter
  servers := by
    simp only [List.mem_singleton, forall_eq]
    obtain ⟨v, hv, hname, hsays⟩ := hrow
    exact ⟨v, hv, hname, hsays.host, hsays.port, hsays.domain, hsays.kept, hsays.cleared, hsays.grouped,
      hsays.old, hsays.new⟩
  unnamed v hv := hother v (hv row (List.mem_singleton.2 rfl))
  groups := hgroup.kept
  named := by
    simp only [List.mem_singleton, forall_eq]
    exact fun name hg => (hgroup.named name hg).imp fun g hg => ⟨hg.1, hg.2.1⟩
  new := by simpa using hgroup.new
  counts := hcounts
  rest := by rw [hgroup.rest]

theorem imported_importRow (h : s.Constraints) (row : ImportRow) (incarnation : Int) :
    s.Imported [row] (if (s.importRow row incarnation).1 then (1, 0) else (0, 1)) (s.importRow row incarnation).2 := by
  have hgroup := s.grouped_importGroup row
  have hafter := h.importRow row incarnation
  cases hold : s.serverNamed row.name with
  | some v =>
    obtain ⟨hv, hname⟩ := (serverNamed_eq_some h).1 hold
    rw [importRow_old hold] at hafter ⊢
    refine hgroup.imported hafter ?_ (fun v' hne => ?_) (by simp [newAndOld, hold])
    · exact ⟨_, Table.mem_update_one.2 (.inl ⟨v, hv, rfl, rfl⟩), hname, says_written hgroup hold⟩
    · rw [Table.mem_update_one]
      constructor
      · rintro (⟨v₀, hv₀, hid, rfl⟩ | ⟨hv', -⟩)
        · rw [Table.eq_of_id_eq hv₀ hv hid] at hne
          exact absurd hname.symm hne
        · exact hv'
      · refine fun hv' => .inr ⟨hv', fun hid => hne ?_⟩
        rw [Table.eq_of_id_eq hv' hv hid, hname]
  | none =>
    rw [importRow_new hold] at hafter ⊢
    refine hgroup.imported hafter ?_ (fun v' hne => ?_) (by simp [newAndOld, hold])
    · exact ⟨_, Table.mem_insert.2 (.inr rfl), rfl, says_fresh hgroup hold⟩
    · rw [Table.mem_insert]
      refine or_iff_left ?_
      rintro rfl
      exact hne rfl

/-! ## All of them -/

theorem Imported.serverNamed_eq (h : s.Imported rows counts s') (hs : s.Constraints)
    (hname : ∀ row ∈ rows, nocase row.name ≠ nocase name) : s'.serverNamed name = s.serverNamed name := by
  ext v
  rw [serverNamed_eq_some h.constraints, serverNamed_eq_some hs]
  refine and_congr_left fun hv => h.unnamed v fun row hrow => ?_
  rw [hv]
  exact hname row hrow

theorem Says.between {s₁ s₂ s₃ : Store} (h : s₁.Says row s₂ v)
    (hbefore : s₁.serverNamed row.name = s.serverNamed row.name) (hafter : s₂.groups.rows <+: s₃.groups.rows) :
    s.Says row s₃ v where
  host := h.host
  port := hbefore ▸ h.port
  domain := hbefore ▸ h.domain
  kept := hbefore ▸ h.kept
  cleared := h.cleared
  grouped name hg := (h.grouped name hg).imp fun _ hg => ⟨hafter.subset hg.1, hg.2⟩
  old := hbefore ▸ h.old
  new := hbefore ▸ h.new

theorem Imported.append {rows' : List ImportRow} {counts' : Nat × Nat} {s'' : Store} (hs : s.Constraints)
    (h : s.Imported rows counts s') (h' : s'.Imported rows' counts' s'')
    (hapart : ∀ row ∈ rows, ∀ row' ∈ rows', nocase row.name ≠ nocase row'.name) :
    s.Imported (rows ++ rows') (counts.1 + counts'.1, counts.2 + counts'.2) s'' where
  constraints := h'.constraints
  servers row hrow := by
    rcases List.mem_append.1 hrow with hrow | hrow
    · obtain ⟨v, hv, hname, hsays⟩ := h.servers row hrow
      refine ⟨v, (h'.unnamed v fun row' hrow' => ?_).2 hv, hname, hsays.between rfl h'.groups⟩
      rw [hname]
      exact (hapart row hrow row' hrow').symm
    · obtain ⟨v, hv, hname, hsays⟩ := h'.servers row hrow
      exact ⟨v, hv, hname, hsays.between (h.serverNamed_eq hs fun r hr => hapart r hr row hrow) List.prefix_rfl⟩
  unnamed v hv := (h'.unnamed v fun row hrow => hv row (List.mem_append_right _ hrow)).trans
    (h.unnamed v fun row hrow => hv row (List.mem_append_left _ hrow))
  groups := h.groups.trans h'.groups
  named row hrow name hg := by
    rcases List.mem_append.1 hrow with hrow | hrow
    · exact (h.named row hrow name hg).imp fun _ hg => ⟨h'.groups.subset hg.1, hg.2⟩
    · exact h'.named row hrow name hg
  new g hg := by
    rcases h'.new g hg with hg | ⟨row, hrow, hg⟩
    · exact (h.new g hg).imp id fun ⟨row, hrow, hg⟩ => ⟨row, List.mem_append_left _ hrow, hg⟩
    · exact .inr ⟨row, List.mem_append_right _ hrow, hg⟩
  counts := by
    have hsame : s'.newAndOld rows' = s.newAndOld rows' := by
      have hold : ∀ row ∈ rows', s'.serverNamed row.name = s.serverNamed row.name := fun row hrow =>
        h.serverNamed_eq hs fun r hr => hapart r hr row hrow
      unfold newAndOld
      refine Prod.ext (List.countP_congr fun row hrow => ?_) (List.countP_congr fun row hrow => ?_) <;>
        rw [hold row hrow]
    rw [h.counts, h'.counts, hsame]
    simp [newAndOld, List.countP_append]
  rest := by rw [h'.rest, h.rest]

theorem imported_serversImport (incarnations : Nat → Int) : ∀ {rows : List ImportRow} {s : Store}, s.Constraints →
    rows.Pairwise (fun a b => nocase a.name ≠ nocase b.name) →
    s.Imported rows (s.serversImport incarnations rows).1 (s.serversImport incarnations rows).2
  | [], s, hs, _ => ⟨hs, nofun, fun _ _ => Iff.rfl, List.prefix_rfl, nofun, fun _ hg => .inl hg, rfl, rfl⟩
  | row :: rows, s, hs, hapart => by
    obtain ⟨hrow, hapart⟩ := List.pairwise_cons.1 hapart
    have hone := imported_importRow hs row (incarnations rows.length)
    have hrest := imported_serversImport incarnations hone.constraints hapart
    have hall := hone.append hs hrest fun r hr r' hr' => by
      obtain rfl := List.mem_singleton.1 hr
      exact hrow r' hr'
    simp only [serversImport]
    cases hcreated : (s.importRow row (incarnations rows.length)).1 <;>
      simpa [hcreated, Nat.add_comm] using hall

/-! ## Again -/

theorem importGroup_of_says (hs : s.Constraints) (h : s₀.Says row s v) :
    s.importGroup row = (if row.group.isSome then v.groupId else none, s) := by
  unfold importGroup
  cases hgroup : row.group with
  | none => rfl
  | some name =>
    cases name with
    | none => rw [h.cleared hgroup]; rfl
    | some name =>
      obtain ⟨g, hg, hname, hid⟩ := h.grouped name hgroup
      simp only [Option.join_some, hs.groupNames.find?_eq_some.2 ⟨hg, hname⟩, hid]
      rfl

theorem importRow_of_says (hs : s.Constraints) (hv : v ∈ s.servers.rows) (hname : nocase v.name = nocase row.name)
    (h : s₀.Says row s v) (incarnation : Int) : s.importRow row incarnation = (false, s) := by
  have hwritten : written row (if row.group.isSome then v.groupId else none) v = v := by
    have hport : row.port.getD v.port = v.port := by
      cases hp : row.port with
      | none => rfl
      | some p => rw [h.port, hp, Option.getD_some, Option.getD_some]
    have hdomain : (if row.domain.isSome then row.domain.join else v.domain) = v.domain := by
      cases hd : row.domain with
      | none => rfl
      | some d => rw [h.domain, hd]; rfl
    have hgroup : (if row.group.isSome then (if row.group.isSome then v.groupId else none) else v.groupId) =
        v.groupId := by
      cases row.group <;> rfl
    rw [written, hport, hdomain, hgroup, ← h.host]
  rw [importRow_old ((serverNamed_eq_some hs).2 ⟨hv, hname⟩), importGroup_of_says hs h,
    Table.update_eq_self fun r hr hid => ?_]
  rw [Table.eq_of_id_eq hr hv (beq_iff_eq.1 hid)]
  exact hwritten

theorem serversImport_of_same {incarnations : Nat → Int} : ∀ {rows : List ImportRow},
    (∀ row ∈ rows, ∀ incarnation, s.importRow row incarnation = (false, s)) →
    s.serversImport incarnations rows = ((0, rows.length), s)
  | [], _ => rfl
  | row :: rows, h => by
    rw [serversImport, h row List.mem_cons_self]
    simp only [serversImport_of_same fun r hr => h r (List.mem_cons_of_mem _ hr)]
    rfl

/-- A server import does what its rows say and nothing else, and does nothing when it is made again. -/
theorem servers_import_exact (low : Lowercase) (debug : Csv.Debug) (text : Text) (rows : List ImportRow)
    (hread : Csv.parseImport low debug text = .ok rows) (s : Store) (hs : s.Constraints) (incarnations : Nat → Int) :
    let r := s.serversImport incarnations rows
    s.Imported rows r.1 r.2 ∧ ∀ incarnations', r.2.serversImport incarnations' rows = ((0, rows.length), r.2) := by
  have hdone := imported_serversImport incarnations hs (Csv.parseImport_apart hread)
  refine ⟨hdone, fun incarnations' => serversImport_of_same fun row hrow incarnation => ?_⟩
  obtain ⟨v, hv, hname, hsays⟩ := hdone.servers row hrow
  exact importRow_of_says hdone.constraints hv hname hsays incarnation

/-- An import of two lines into a database with one of the two servers, and then again -/
theorem servers_import_exact_two :
    let rows : List ImportRow := [⟨"a", "h", none, some (some "G"), none⟩,
      ⟨"b", "i", some 3390, none, none⟩]
    let s : Store := { servers :=
      ⟨[{ id := 1, name := "B", host := [], port := 3389, incarnation := 0 }], 1, by simp, by simp⟩ }
    let r := s.serversImport (fun _ => 0) rows
    s.Imported rows r.1 r.2 ∧ ∀ incarnations', r.2.serversImport incarnations' rows = ((0, 2), r.2) := by
  intro rows s
  refine servers_import_exact dottedLower id "a,h,,G\nb,i,3390" rows (by decide) s ⟨?_, ?_, ?_,
    List.nodup_nil⟩ fun _ => 0
  · intro v hv v' hv' _
    rw [List.mem_singleton.1 hv, List.mem_singleton.1 hv']
  · exact Table.unique_empty
  · intro v hv id hid
    rw [List.mem_singleton.1 hv] at hid
    cases hid

end WebAccess.Store
