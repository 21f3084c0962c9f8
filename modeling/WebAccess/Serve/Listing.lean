/-
The list of a user's servers (`my_servers`), beside what `policy::resolve` answers for each of them.
The list is a join that is sorted by group and then folded by a comparison with the last group only;
that the groups come out whole, and in their order, follows from what the schema says of their names
and from how far a group's place in the order can get. Ungrouped servers are sorted as if their
group's place were a thousand million, so they come last while no place gets there.
-/
import WebAccess.Lib.Titled
import WebAccess.Serve.Handlers
import WebAccess.Store.Constraints
import Mathlib.Data.Char
import Mathlib.Data.List.Lex
import Mathlib.Data.Prod.Lex
import Mathlib.Order.WithBot

namespace WebAccess

open Codec Wire Process

/-! ## The list -/

structure ListedServer where
  server : Server
  groupName : Option Text

structure ListedServerJson where
  id : Int
  name : Text
  host : Text
  domain : Option Text
  saved : Bool
  connected : Bool
  reconnect : Bool

/-- A heading of the list and the servers under it. -/
structure ListedGroup where
  name : Option Text
  servers : List ListedServerJson

namespace Store

/-- `LEFT JOIN server_groups g ON g.id = s.group_id` -/
def groupOf (s : Store) (v : Server) : Option Group := v.groupId.bind s.groups.byId

def groupPlace (g : Group) : Int ×ₗ Text := toLex (g.sort, nocase g.name)

/-- `COALESCE(g.sort, 1000000000), g.name`; no name comes before every name. -/
def headingPlace : Option Group → Int ×ₗ WithBot Text
  | some g => toLex (g.sort, ((nocase g.name : Text) : WithBot Text))
  | none => toLex (1000000000, ⊥)

/-- `ORDER BY COALESCE(g.sort, 1000000000), g.name, s.name COLLATE NOCASE` -/
def serverPlace (s : Store) (v : Server) : (Int ×ₗ WithBot Text) ×ₗ Text :=
  toLex (headingPlace (s.groupOf v), nocase v.name)

def assignedServers (s : Store) (userId : Int) : List ListedServer :=
  (((s.assigned userId).filterMap s.serverById).insertionSort fun v w => s.serverPlace v ≤ s.serverPlace w).map fun v =>
    ⟨v, (s.groupOf v).map Group.name⟩

/-- `groups_list`: with the number of servers of each. -/
def groupsList (s : Store) : List (Group × Nat) :=
  (s.groups.rows.insertionSort fun g h => groupPlace g ≤ groupPlace h).map fun g =>
    (g, s.servers.rows.countP (·.groupId == some g.id))

def savedServerIds (s : Store) (userId : Int) : List Int :=
  (s.credentials.filter (·.userId == userId)).map CredentialRow.serverId

def recentEnds (s : Store) (userId since : Int) : List (Int × Int) :=
  (s.sessionLog.filter fun r => r.userId == userId && decide (since < r.ended)).map fun r => (r.serverId, r.ended)

end Store

def LiveSessions.serversFor (s : LiveSessions) (userId : Int) : List Int :=
  (((List.range s.next).filterMap s.inner).filter fun l => l.userId == userId && l.established).filterMap Live.serverId

/-- One server of the list goes into the last group, if that is its own, and otherwise into a new one. -/
def addListed (item : Server → ListedServerJson) (groups : List ListedGroup) (l : ListedServer) : List ListedGroup :=
  match groups.getLast? with
  | some g =>
    if g.name = l.groupName then groups.dropLast ++ [{ g with servers := g.servers ++ [item l.server] }]
    else groups ++ [⟨l.groupName, [item l.server]⟩]
  | none => groups ++ [⟨l.groupName, [item l.server]⟩]

namespace App

def listedItem (a : App) (user : User) (now : Int) (v : Server) : ListedServerJson :=
  let connected := (a.live.serversFor user.id).contains v.id
  { id := v.id
    name := v.name
    host := v.host
    domain := v.domain
    saved := (a.store.savedServerIds user.id).contains v.id
    connected
    reconnect := (a.store.recentEnds user.id (now - a.store.readSettings.signinSecs)).any (·.1 == v.id) && !connected }

/-- `my_servers`, of what the database and the registry hold at one moment. -/
def myServers (a : App) (user : User) (now : Int) : List ListedGroup :=
  (a.store.assignedServers user.id).foldl (addListed (a.listedItem user now)) []

/-- What `policy::resolve` gives for the id of a server while nothing else happens. -/
def opens (a : App) (me : Holder) (w : World) (userId id : Int) : Option Server :=
  ((resolve userId (number id)).alone (App.answer me w) a).1.toOption

end App

/-! ## What may be opened -/

theorem opens_eq_some {a : App} {me : Holder} {w : World} {userId id : Int} {v : Server} :
    a.opens me w userId id = some v ↔
      InI64 id ∧ a.store.serverById id = some v ∧ (userId, id) ∈ a.store.assignments := by
  have hanswer : ∀ c, (ask c).alone (App.answer me w) a = App.answer me w c a := fun _ => rfl
  unfold App.opens resolve
  cases hparse : parseI64 (number id) with
  | none =>
    refine iff_of_false (by simp [Except.toOption]) fun h => ?_
    exact nomatch hparse.symm.trans (parseI64_number.2 ⟨rfl, h.1⟩)
  | some n =>
    obtain ⟨rfl, hrange⟩ := parseI64_number.1 hparse
    simp only [Prog.alone_bind, hanswer, App.answer, hrange, true_and]
    cases hserver : a.store.serverById n with
    | none => simp [Except.toOption]
    | some server =>
      obtain ⟨-, hid⟩ := Store.serverById_eq_some hserver
      simp only [Prog.alone_bind, hanswer, App.answer, hid, Store.isAssigned]
      by_cases hassigned : (userId, n) ∈ a.store.assignments <;> simp [hassigned, Except.toOption]

/-! ## The list as runs of one group -/

section Runs

variable {s : Store} {userId : Int}

def Store.listed (s : Store) (userId : Int) : List Server := (s.assignedServers userId).map ListedServer.server

theorem Store.assignedServers_eq :
    s.assignedServers userId = (s.listed userId).map fun v => ⟨v, (s.groupOf v).map Group.name⟩ := by
  simp [listed, assignedServers]

theorem App.myServers_eq (a : App) (user : User) (now : Int) :
    a.myServers user now = (Titled.gather (fun v => (a.store.groupOf v).map Group.name) (a.store.listed user.id)).map
      fun r => ⟨r.heading, r.items.map (a.listedItem user now)⟩ := by
  let listed : Titled (Option Text) Server → ListedGroup := fun r => ⟨r.heading, r.items.map (a.listedItem user now)⟩
  rw [App.myServers, Store.assignedServers_eq, List.foldl_map, Titled.gather]
  show List.foldl _ (List.map listed []) _ = List.map listed _
  refine List.foldl_hom (List.map listed) fun runs v => ?_
  rw [addListed, Titled.push, List.getLast?_map]
  cases runs.getLast? with
  | none => simp [listed]
  | some r =>
    simp only [Option.map_some]
    split <;> simp [listed, List.map_dropLast, *]

theorem mem_listed {v : Server} :
    v ∈ s.listed userId ↔ s.serverById v.id = some v ∧ (userId, v.id) ∈ s.assignments := by
  simp only [Store.listed, Store.assignedServers, List.map_map, Function.comp_def, List.map_id', List.mem_insertionSort,
    List.mem_filterMap, Store.mem_assigned]
  constructor
  · rintro ⟨id, hassigned, hserver⟩
    obtain ⟨-, rfl⟩ := Store.serverById_eq_some hserver
    exact ⟨hserver, hassigned⟩
  · exact fun ⟨hserver, hassigned⟩ => ⟨v.id, hassigned, hserver⟩

theorem nodup_listed (h : s.assignments.Nodup) : ((s.listed userId).map Server.id).Nodup := by
  have hsub : ∀ ids : List Int, ((ids.filterMap s.serverById).map Server.id).Sublist ids := by
    intro ids
    induction ids with
    | nil => exact .slnil
    | cons id ids ih =>
      cases hserver : s.serverById id with
      | none => simpa [hserver] using ih.cons id
      | some v =>
        obtain ⟨-, rfl⟩ := Store.serverById_eq_some hserver
        simpa [hserver] using ih
  have hnodup := (Store.Constraints.nodup_assigned h userId).sublist (hsub (s.assigned userId))
  simp only [Store.listed, Store.assignedServers, List.map_map, Function.comp_def, List.map_id']
  exact ((List.perm_insertionSort _ _).map Server.id).nodup_iff.2 hnodup

theorem pairwise_sorted {α ι : Type} [LinearOrder ι] (place : α → ι) (l : List α) :
    (l.insertionSort fun a b => place a ≤ place b).Pairwise fun a b => place a ≤ place b :=
  have : Std.Total fun a b => place a ≤ place b := ⟨fun _ _ => le_total _ _⟩
  have : IsTrans α fun a b => place a ≤ place b := ⟨fun _ _ _ => le_trans⟩
  List.pairwise_insertionSort _ l

theorem sorted_listed :
    (s.listed userId).Pairwise fun v w => Store.headingPlace (s.groupOf v) ≤ Store.headingPlace (s.groupOf w) := by
  simp only [Store.listed, Store.assignedServers, List.map_map, Function.comp_def, List.map_id']
  exact (pairwise_sorted s.serverPlace _).imp fun h => Prod.Lex.monotone_fst _ _ h

end Runs

/-! ## Places -/

section Places

variable {s : Store}

/-- A group that is in the table, or none. -/
def Store.Known (s : Store) (g : Option Group) : Prop := ∀ x, g = some x → x ∈ s.groups.rows

theorem known_groupOf (v : Server) : s.Known (s.groupOf v) := by
  intro g hg
  obtain ⟨id, -, hid⟩ := Option.bind_eq_some_iff.1 hg
  exact (Table.byId_eq_some hid).1

theorem headingPlace_eq_iff (h : s.Constraints) {g g' : Option Group} (hg : s.Known g) (hg' : s.Known g') :
    g.map Group.name = g'.map Group.name ↔ Store.headingPlace g = Store.headingPlace g' := by
  cases g with
  | none => cases g' <;> simp [Store.headingPlace]
  | some g =>
    cases g' with
    | none => simp [Store.headingPlace]
    | some g' =>
      have hsame : Store.nocase g.name = Store.nocase g'.name → g = g' := h.groupNames g (hg g rfl) g' (hg' g' rfl)
      constructor
      · intro hname
        rw [hsame (congrArg Store.nocase (Option.some.inj hname))]
      · intro hplace
        simp only [Store.headingPlace, toLex_inj, Prod.mk.injEq, WithBot.coe_inj] at hplace
        rw [hsame hplace.2]

/-- One heading comes before another in the order of the groups. -/
def Store.Before (s : Store) (n n' : Option Text) : Prop :=
  ∃ g g', s.Known g ∧ s.Known g' ∧ g.map Group.name = n ∧ g'.map Group.name = n' ∧
    Store.headingPlace g < Store.headingPlace g'

variable {n : Option Text}

theorem Store.Before.asymm (h : s.Constraints) {n' : Option Text} (hb : s.Before n n') : ¬ s.Before n' n := by
  obtain ⟨g₁, g₁', hg₁, hg₁', rfl, rfl, hlt⟩ := hb
  rintro ⟨g₂', g₂, hg₂', hg₂, hn', hn, hlt'⟩
  rw [(headingPlace_eq_iff h hg₂ hg₁).1 hn, (headingPlace_eq_iff h hg₂' hg₁').1 hn'] at hlt'
  exact lt_asymm hlt hlt'

theorem Store.Before.ne (h : s.Constraints) {n' : Option Text} (hb : s.Before n n') : n ≠ n' := by
  rintro rfl
  exact hb.asymm h hb

theorem not_before_none (hsorts : ∀ g ∈ s.groups.rows, g.sort < 1000000000) : ¬ s.Before none n := by
  rintro ⟨g, g', -, hg', hnone, -, hlt⟩
  rw [Option.map_eq_none_iff] at hnone
  subst hnone
  cases g' with
  | none => exact lt_irrefl _ hlt
  | some g' =>
    have hsort := hsorts g' (hg' g' rfl)
    simp only [Store.headingPlace, Prod.Lex.toLex_lt_toLex] at hlt
    omega

theorem before_headings (h : s.Constraints) (userId : Int) :
    ((Titled.gather (fun v => (s.groupOf v).map Group.name) (s.listed userId)).map Titled.heading).Pairwise
        s.Before := by
  refine List.pairwise_map.2 ((Titled.pairwise_gather sorted_listed fun v _ w _ =>
    headingPlace_eq_iff h (known_groupOf v) (known_groupOf w)).imp_of_mem fun {r r'} hr hr' hlt => ?_)
  obtain ⟨hne, hown⟩ := Titled.own_gather _ r hr
  obtain ⟨hne', hown'⟩ := Titled.own_gather _ r' hr'
  obtain ⟨v, hv⟩ := List.exists_mem_of_ne_nil _ hne
  obtain ⟨w, hw⟩ := List.exists_mem_of_ne_nil _ hne'
  exact ⟨s.groupOf v, s.groupOf w, known_groupOf v, known_groupOf w, hown v hv, hown' w hw, hlt v hv w hw⟩

theorem before_groupsList (h : s.Constraints) : (s.groupsList.map fun g => some g.1.name).Pairwise s.Before := by
  have hperm := List.perm_insertionSort (fun g g' => Store.groupPlace g ≤ Store.groupPlace g') s.groups.rows
  have hnodup := hperm.nodup_iff.2 (List.Nodup.of_map _ s.groups.nodup)
  rw [Store.groupsList, List.map_map, List.pairwise_map]
  refine ((pairwise_sorted Store.groupPlace s.groups.rows).and hnodup).imp_of_mem fun {g g'} hg hg' hle => ?_
  have hg := hperm.mem_iff.1 hg
  have hg' := hperm.mem_iff.1 hg'
  refine ⟨some g, some g', fun x hx => Option.some.inj hx ▸ hg, fun x hx => Option.some.inj hx ▸ hg', rfl, rfl, ?_⟩
  have hlt : Store.groupPlace g < Store.groupPlace g' := lt_of_le_of_ne hle.1 fun heq => hle.2 <| by
    simp only [Store.groupPlace, toLex_inj, Prod.mk.injEq] at heq
    exact h.groupNames g hg g' hg' heq.2
  simpa [Store.groupPlace, Store.headingPlace, Prod.Lex.toLex_lt_toLex] using hlt

end Places

/-! ## The databases there can be -/

/-- The databases that come about by calls, none of which lists more than `bound` ids in an order beyond the groups
that were created so far; a database that is put in place by an import came about in this way, too. -/
inductive Store.Reachable (bound : Nat) : Store → Prop
  | empty : Reachable bound {}
  | call {a : App} {me : Holder} {w : World} {c : Call} (h : Reachable bound a.store)
      (hplaces : ∀ ids, c = .edit (.groupOrder ids) → ids.length ≤ bound + a.store.groups.seq)
      (hswap : ∀ store, c = .replaceWith store → Reachable bound store) : Reachable bound (App.answer me w c a).2.store

/-- No group's place is past what the orders and the groups created after them can give. -/
structure Placed (bound : Nat) (t : Table Group.id) : Prop where
  seq : 0 ≤ t.seq
  sorts : ∀ g ∈ t.rows, g.sort < bound + t.seq

namespace Placed

variable {bound : Nat} {t : Table Group.id}

theorem empty : Placed bound .empty := ⟨Int.le_refl 0, nofun⟩

theorem insert (h : Placed bound t) {name : Text} :
    Placed bound (t.insert (fun id => { id, name, sort := (t.rows.map Group.sort).max?.getD (-1) + 1 }) fun _ =>
        rfl) := by
  have hseq := h.seq
  have hmax : (t.rows.map Group.sort).max?.getD (-1) < bound + t.seq := by
    cases hmax : (t.rows.map Group.sort).max? with
    | none =>
      rw [Option.getD_none]
      omega
    | some m =>
      obtain ⟨g, hg, rfl⟩ := List.mem_map.1 (List.max?_mem hmax)
      exact h.sorts g hg
  refine ⟨show 0 ≤ t.seq + 1 by omega, fun g hg => ?_⟩
  show g.sort < bound + (t.seq + 1)
  rcases Table.mem_insert.1 hg with hg | rfl
  · have hsort := h.sorts g hg
    omega
  · simp only []
    omega

theorem delete (h : Placed bound t) {p : Group → Bool} : Placed bound (t.delete p) :=
  ⟨h.seq, fun g hg => h.sorts g (Table.mem_delete.1 hg).1⟩

theorem update (h : Placed bound t) {n : Int} (f : Group → Group) (hf : ∀ g, (f g).id = g.id)
    (hsort : ∀ g, (f g).sort = g.sort ∨ (f g).sort < bound + t.seq) : Placed bound (t.update (·.id == n) f hf) := by
  refine ⟨h.seq, fun g hg => ?_⟩
  show g.sort < bound + t.seq
  rcases Table.mem_update_one.1 hg with ⟨g₀, hg₀, -, rfl⟩ | ⟨hg, -⟩
  · rcases hsort g₀ with heq | hlt
    · exact heq ▸ h.sorts g₀ hg₀
    · exact hlt
  · exact h.sorts g hg

variable {s : Store}

theorem groupOrder (h : Placed bound s.groups) {ids : List Int} (hlen : ids.length ≤ bound + s.groups.seq) :
    Placed bound (s.groupOrder ids).groups := by
  have hplace : ∀ p ∈ ids.zipIdx, (p.2 : Int) < bound + s.groups.seq := fun p hp => by
    have hlt : p.2 < ids.length := by simpa using (List.mem_zipIdx' hp).1
    omega
  unfold Store.groupOrder
  generalize ids.zipIdx = places at hplace
  generalize s.groups = t at h hplace ⊢
  induction places generalizing t with
  | nil => exact h
  | cons p places ih =>
    have hp := hplace p List.mem_cons_self
    exact ih _ (h.update (fun g => { g with sort := p.2 }) (fun _ => rfl) fun _ => .inr hp)
      fun q hq => hplace q (List.mem_cons_of_mem _ hq)

theorem groupInsert (h : Placed bound s.groups) {name : Text} : Placed bound (s.groupInsert name).2.groups := by
  unfold Store.groupInsert
  split
  · exact h
  · exact h.insert

theorem importRow (h : Placed bound s.groups) {row : ImportRow} {incarnation : Int} :
    Placed bound (s.importRow row incarnation).2.groups := by
  have hgroup : Placed bound (s.importGroup row).2.groups := by
    unfold Store.importGroup
    split
    · exact h
    split
    · exact h
    · exact h.groupInsert
  simp only [Store.importRow]
  split
  · exact hgroup
  · exact hgroup

theorem serversImport {incarnations : Nat → Int} : ∀ {rows : List ImportRow} {s : Store}, Placed bound s.groups →
    Placed bound (s.serversImport incarnations rows).2.groups
  | [], _, h => h
  | _ :: _, _, h => h.importRow.serversImport

theorem edit {incarnations : Nat → Int} {e : Edit} (h : Placed bound s.groups)
    (hlen : ∀ ids, e = .groupOrder ids → ids.length ≤ bound + s.groups.seq) :
    Placed bound (s.edit incarnations e).2.groups := by
  cases e with
  | serversImport => exact h.serversImport
  | groupCreate => exact h.groupInsert
  | groupOrder ids => exact h.groupOrder (hlen ids rfl)
  | groupRename id name =>
    simp only [Store.edit, Store.groupRename]
    split
    · exact h
    split
    · exact h.update (fun g => { g with name }) (fun _ => rfl) fun _ => .inl rfl
    · exact h
  | groupDelete id =>
    simp only [Store.edit, Store.groupDelete]
    split
    · exact h
    split
    · exact h.delete
    · exact h
  | _ =>
    -- the edits of users, servers and settings leave the groups
    simp only [Store.edit, Store.userSetAdmin, Store.copyAssignments, Store.serverCreate, Store.serverUpdate]
    repeat' split
    all_goals exact h

end Placed

/-- What every database has that came about by calls. -/
structure Store.Orderly (bound : Nat) (s : Store) : Prop where
  constraints : s.Constraints
  placed : Placed bound s.groups

namespace Store.Orderly

variable {bound : Nat} {s : Store}

theorem of_same {s' : Store} (h : s.Orderly bound) (hservers : s'.servers = s.servers) (hgroups : s'.groups = s.groups)
    (hassignments : s'.assignments = s.assignments) : s'.Orderly bound :=
  ⟨h.constraints.of_same hservers hgroups hassignments, hgroups ▸ h.placed⟩

theorem answer {a : App} {me : Holder} {w : World} {c : Call} (h : a.store.Orderly bound)
    (hplaces : ∀ ids, c = .edit (.groupOrder ids) → ids.length ≤ bound + a.store.groups.seq)
    (hswap : ∀ store, c = .replaceWith store → store.Orderly bound) : (App.answer me w c a).2.store.Orderly bound := by
  have hkeeps := App.keeps_answer me w c a
  cases c with
  | edit e => exact ⟨h.constraints.edit w.randoms e, h.placed.edit fun ids he => hplaces ids (by rw [he])⟩
  | replaceWith store => exact hswap store rfl
  | setAssignments userId ids => exact ⟨h.constraints.setAssignments userId ids, hkeeps.groups rfl ▸ h.placed⟩
  | userDelete id => exact ⟨h.constraints.userDelete id, hkeeps.groups rfl ▸ h.placed⟩
  | serverDelete id => exact ⟨h.constraints.serverDelete id, hkeeps.groups rfl ▸ h.placed⟩
  | _ => exact h.of_same (hkeeps.servers rfl) (hkeeps.groups rfl) (hkeeps.assignments rfl)

theorem of_reachable (h : s.Reachable bound) : s.Orderly bound := by
  induction h with
  | empty => exact ⟨Constraints.empty, Placed.empty⟩
  | call _ hplaces _ ih ihswap => exact ih.answer hplaces ihswap

end Store.Orderly

/-! ## The list shows what may be opened -/

/-- The list of a user beside what `resolve` gives them: the servers they may open, each once and under the name of
its own group; no name twice, those without a group last, and the others in the order of the groups. -/
structure ListExact (a : App) (me : Holder) (w : World) (user : User) (groups : List ListedGroup) : Prop where
  shown : ∀ id, id ∈ (groups.flatMap ListedGroup.servers).map ListedServerJson.id ↔ (a.opens me w user.id id).isSome
  once : ((groups.flatMap ListedGroup.servers).map ListedServerJson.id).Nodup
  own : ∀ g ∈ groups, ∀ item ∈ g.servers, ∃ v, a.opens me w user.id item.id = some v ∧
    item.name = v.name ∧ item.host = v.host ∧ item.domain = v.domain ∧
    g.name = (a.store.groupOf v).map Group.name ∧ (g.name = none ↔ v.groupId = none)
  headings : (groups.map ListedGroup.name).Nodup
  last : ∀ front back, groups.map ListedGroup.name = front ++ none :: back → back = []
  order : (groups.filterMap ListedGroup.name).Sublist (a.store.groupsList.map fun g => g.1.name)

section Exact

variable {a : App} {me : Holder} {w : World} {user : User} {now : Int}

theorem ids_myServers :
    ((a.myServers user now).flatMap ListedGroup.servers).map ListedServerJson.id =
      (a.store.listed user.id).map Server.id := by
  rw [App.myServers_eq, List.flatMap_map, List.map_flatMap]
  conv_rhs => rw [← Titled.items_gather (f := fun v => (a.store.groupOf v).map Group.name) (a.store.listed user.id)]
  rw [List.map_flatMap]
  simp [App.listedItem, Function.comp_def]

theorem names_myServers : (a.myServers user now).map ListedGroup.name =
    (Titled.gather (fun v => (a.store.groupOf v).map Group.name) (a.store.listed user.id)).map Titled.heading := by
  rw [App.myServers_eq, List.map_map]
  rfl

theorem opens_of_mem_listed (hids : ∀ v ∈ a.store.servers.rows, InI64 v.id) {v : Server}
    (hv : v ∈ a.store.listed user.id) : a.opens me w user.id v.id = some v := by
  obtain ⟨hserver, hassigned⟩ := mem_listed.1 hv
  exact opens_eq_some.2 ⟨hids v (Store.serverById_eq_some hserver).1, hserver, hassigned⟩

theorem groupOf_eq_none {s : Store} (h : s.Constraints) {v : Server} (hv : v ∈ s.servers.rows) :
    s.groupOf v = none ↔ v.groupId = none := by
  constructor
  · intro hnone
    cases hid : v.groupId with
    | none => rfl
    | some id =>
      obtain ⟨g, hg, rfl⟩ := h.groupRefs v hv id hid
      rw [Store.groupOf, hid, Option.bind_some, Table.byId_of_mem hg] at hnone
      cases hnone
  · intro hnone
    rw [Store.groupOf, hnone]
    rfl

theorem sublist_groupsList {s : Store} (h : s.Constraints) {names : List (Option Text)}
    (hnames : names.Pairwise s.Before)
    (hknown : ∀ n, some n ∈ names → ∃ g ∈ s.groups.rows, g.name = n) :
    (names.filterMap id).Sublist (s.groupsList.map fun g => g.1.name) := by
  have hanti : Std.Antisymm fun n n' => s.Before (some n) (some n') := ⟨fun _ _ hb hb' => (hb.asymm h hb').elim⟩
  have hsorted : (names.filterMap id).Pairwise fun n n' => s.Before (some n) (some n') := by
    refine List.pairwise_filterMap.2 (hnames.imp fun hb n hn n' hn' => ?_)
    rw [← show _ = some n from hn, ← show _ = some n' from hn']
    exact hb
  have hgroups : (s.groupsList.map fun g => g.1.name).Pairwise fun n n' => s.Before (some n) (some n') :=
    List.pairwise_map.2 (List.pairwise_map.1 (before_groupsList h))
  refine List.sublist_of_subperm_of_pairwise (List.subperm_of_subset (hsorted.imp fun hb heq => ?_) fun n hn => ?_)
    hsorted hgroups
  · exact hb.ne h (congrArg some heq)
  · obtain ⟨n', hn', heq⟩ := List.mem_filterMap.1 hn
    obtain ⟨g, hg, rfl⟩ := hknown n ((show n' = some n from heq) ▸ hn')
    simp only [Store.groupsList, List.map_map, List.mem_map, List.mem_insertionSort]
    exact ⟨g, hg, rfl⟩

end Exact

/-- The state after some calls. -/
def App.after (me : Holder) (w : World) (a : App) (calls : List Call) : App :=
  calls.foldl (fun a c => (App.answer me w c a).2) a

theorem reachable_after {me : Holder} {w : World} {bound : Nat} {calls : List Call} {a : App}
    (h : a.store.Reachable bound)
    (hcalls : ∀ c ∈ calls, (∀ ids, c ≠ .edit (.groupOrder ids)) ∧ ∀ store, c ≠ .replaceWith store) :
    (App.after me w a calls).store.Reachable bound := by
  induction calls generalizing a with
  | nil => exact h
  | cons c calls ih =>
    obtain ⟨hplaces, hswap⟩ := hcalls c List.mem_cons_self
    exact ih (.call h (fun ids hc => absurd hc (hplaces ids)) fun store hc => absurd hc (hswap store))
      fun c' hc' => hcalls c' (List.mem_cons_of_mem _ hc')

/-- A user with two servers, one of them in a group. -/
def twoServers : List Call :=
  [.userCreate "u" none, .edit (.groupCreate "g"),
    .edit (.serverCreate "a" "h" 3389 none none),
    .edit (.serverCreate "b" "h" 3389 (some 1) none), .setAssignments 1 [1, 2]]

theorem reachable_twoServers (bound : Nat) : (App.after (.task 0) {} {} twoServers).store.Reachable bound :=
  reachable_after .empty (by simp [twoServers])

theorem groupOrder_padded {s : Store} (n : Nat) (h : ∀ g ∈ s.groups.rows, g.id ≠ 0) :
    s.groupOrder (List.replicate n 0 ++ [1]) =
      { s with groups := s.groups.update (·.id == 1) (fun g => { g with sort := n }) fun _ => rfl } := by
  have hpad : ∀ places : List (Int × Nat), (∀ p ∈ places, p.1 = 0) →
      places.foldl (fun t p => t.update (·.id == p.1) (fun g => { g with sort := p.2 }) fun _ => rfl) s.groups =
          s.groups := by
    intro places hplaces
    induction places with
    | nil => rfl
    | cons p places ih =>
      rw [List.foldl_cons, Table.update_eq_self fun g hg hid => ?_]
      · exact ih fun q hq => hplaces q (List.mem_cons_of_mem _ hq)
      · rw [beq_iff_eq, hplaces p List.mem_cons_self] at hid
        exact absurd hid (h g hg)
  unfold Store.groupOrder
  rw [List.zipIdx_append, List.foldl_append, hpad _ fun p hp =>
    List.eq_of_mem_replicate (List.fst_mem_of_mem_zipIdx hp)]
  simp

/-- The list shows exactly what may be opened, in every database that comes about while the groups created, with the
ids that orders list beyond them, do not get to the place of the ungrouped servers. -/
theorem list_shows_what_opens (bound : Nat) (a : App) (hreach : a.store.Reachable bound)
    (hbound : bound + a.store.groups.seq ≤ 1000000000) (hids : ∀ v ∈ a.store.servers.rows, InI64 v.id) (me : Holder)
    (w : World) (user : User) (now : Int) : ListExact a me w user (a.myServers user now) := by
  obtain ⟨hcons, hplaced⟩ := Store.Orderly.of_reachable hreach
  have hnames := before_headings hcons user.id
  refine ⟨fun id => ?_, ?_, fun g hg item hitem => ?_, ?_, fun front back hsplit => ?_, ?_⟩
  · rw [ids_myServers, List.mem_map, Option.isSome_iff_exists]
    constructor
    · rintro ⟨v, hv, rfl⟩
      exact ⟨v, opens_of_mem_listed hids hv⟩
    · rintro ⟨v, hv⟩
      obtain ⟨-, hserver, hassigned⟩ := opens_eq_some.1 hv
      obtain ⟨-, rfl⟩ := Store.serverById_eq_some hserver
      exact ⟨v, mem_listed.2 ⟨hserver, hassigned⟩, rfl⟩
  · rw [ids_myServers]
    exact nodup_listed hcons.assignmentKey
  · rw [App.myServers_eq] at hg
    obtain ⟨r, hr, rfl⟩ := List.mem_map.1 hg
    obtain ⟨v, hv, rfl⟩ := List.mem_map.1 hitem
    have hlisted := Titled.mem_of_mem_gather hr hv
    have hheading := (Titled.own_gather _ r hr).2 v hv
    refine ⟨v, opens_of_mem_listed hids hlisted, rfl, rfl, rfl, hheading.symm, ?_⟩
    have hserver := (Store.serverById_eq_some (mem_listed.1 hlisted).1).1
    rw [← groupOf_eq_none hcons hserver, ← hheading, Option.map_eq_none_iff]
  · rw [names_myServers]
    exact hnames.imp fun hb => hb.ne hcons
  · rw [names_myServers] at hsplit
    rw [hsplit] at hnames
    have hafter := (List.pairwise_cons.1 (List.pairwise_append.1 hnames).2.1).1
    have hsorts : ∀ g ∈ a.store.groups.rows, g.sort < 1000000000 := fun g hg =>
      Int.lt_of_lt_of_le (hplaced.sorts g hg) hbound
    exact List.eq_nil_iff_forall_not_mem.2 fun n hn => not_before_none hsorts (hafter n hn)
  · have hfilter : (a.myServers user now).filterMap ListedGroup.name =
        ((a.myServers user now).map ListedGroup.name).filterMap id := by
      rw [List.filterMap_map]
      rfl
    rw [hfilter, names_myServers]
    refine sublist_groupsList hcons hnames fun n hn => ?_
    obtain ⟨r, hr, hheading⟩ := List.mem_map.1 hn
    obtain ⟨hne, hown⟩ := Titled.own_gather _ r hr
    obtain ⟨v, hv⟩ := List.exists_mem_of_ne_nil _ hne
    obtain ⟨g, hg, rfl⟩ := Option.map_eq_some_iff.1 ((hown v hv).trans hheading)
    exact ⟨g, known_groupOf v g hg, rfl⟩

/-- The two servers are listed, the one in the group first. -/
theorem list_shows_two_servers :
    let a := App.after (.task 0) {} {} twoServers
    let user : User := { id := 1, username := "u", incarnation := 0 }
    ListExact a (.task 0) {} user (a.myServers user 0) ∧
      (a.myServers user 0).map ListedGroup.name = [some "g".toList, none] := by
  intro a user
  exact ⟨list_shows_what_opens 0 a (reachable_twoServers 0) (by decide) (by decide) _ _ _ _, by decide⟩

/-- The name of the `k`th group. -/
def nextName (k : Nat) : Text := if k % 2 = 0 then ['g'] else ['h']

/-- The one group there is when `k` more were created, each in place of the last. -/
def lastGroup (k : Nat) : Table Group.id := ⟨[⟨k + 1, nextName k, 1000000 + k⟩], k + 1, by simp, by simp⟩

/-- A group is created and the one before it deleted. -/
def turnOver (k : Nat) : List Call := [.edit (.groupCreate (nextName (k + 1))), .edit (.groupDelete (k + 1))]

theorem groups_turnOver {s : Store} {k : Nat} (hservers : s.servers.rows = []) (hgroups : s.groups = lastGroup k) :
    ((s.groupInsert (nextName (k + 1))).2.groupDelete (k + 1)).2 = { s with groups := lastGroup (k + 1) } := by
  have hnames : (s.groups.rows.any fun g => Store.nocase g.name == Store.nocase (nextName (k + 1))) = false := by
    rw [hgroups]
    rcases Nat.mod_two_eq_zero_or_one k with hk | hk <;> simp [lastGroup, nextName, hk, Nat.add_mod] <;> decide
  have hdelete : ∀ t : Table Group.id, t.rows = [⟨k + 1, nextName k, 1000000 + k⟩,
    ⟨k + 2, nextName (k + 1), 1000001 + k⟩] →
      t.seq = k + 2 → t.delete (·.id == (k + 1 : Int)) = lastGroup (k + 1) := by
    rintro ⟨rows, seq, hle, hnodup⟩ hrows hseq
    simp only at hrows hseq
    subst hrows hseq
    simp only [Table.delete, lastGroup, Table.mk.injEq]
    have hne : ((k : Int) + 2 == (k : Int) + 1) = false := by simp
    refine ⟨?_, by omega⟩
    simp [hne]
    omega
  simp only [Store.groupInsert, hnames, Bool.false_eq_true, if_false, Store.groupDelete, hservers, List.countP_nil]
  rw [if_neg (by simp), if_pos (by simp [Table.insert, hgroups, lastGroup])]
  refine congrArg (fun groups => { s with groups }) (hdelete _ ?_ ?_)
  · simp [Table.insert, hgroups, lastGroup]
    omega
  · simp [Table.insert, hgroups, lastGroup]
    omega

theorem after_turnOvers (n : Nat) (a : App) (h : a.store.servers.rows = []) (hgroups : a.store.groups = lastGroup 0) :
    App.after (.task 0) {} a ((List.range n).flatMap turnOver) =
      { a with store := { a.store with groups := lastGroup n } } := by
  induction n with
  | zero =>
    rw [← hgroups]
    rfl
  | succ n ih =>
    have hsnoc : App.after (.task 0) {} a ((List.range (n + 1)).flatMap turnOver) =
        App.after (.task 0) {} (App.after (.task 0) {} a ((List.range n).flatMap turnOver)) (turnOver n) := by
      rw [List.range_succ, List.flatMap_append, List.flatMap_singleton]
      exact List.foldl_append
    rw [hsnoc, ih]
    exact congrArg (fun store => { a with store }) (groups_turnOver (s := { a.store with groups := lastGroup n }) h rfl)

/-- Fewer than a thousand million groups are ever created and an order lists a million and one ids, a million of them
of no group; the groups created after it get to the place of the ungrouped servers, which then come first. -/
theorem list_shows_ungrouped_first : ∃ (a : App) (user : User), a.store.Reachable 1000000 ∧
    a.store.groups.seq < 1000000000 ∧ (∀ v ∈ a.store.servers.rows, InI64 v.id) ∧
    (a.myServers user 0).map ListedGroup.name = [none, some "g".toList] := by
  let a₀ := App.after (.task 0) {} {} [.userCreate "u" none, .edit (.groupCreate "g")]
  let order : Call := .edit (.groupOrder (List.replicate 1000000 0 ++ [1]))
  let a₁ := (App.answer (.task 0) {} order a₀).2
  have hreach : a₁.store.Reachable 1000000 := by
    refine .call (reachable_after .empty (by simp)) (fun ids hids => ?_) ?_
    · simp only [order, Call.edit.injEq, Edit.groupOrder.injEq] at hids
      rw [← hids, List.length_append, List.length_replicate, List.length_singleton]
      decide
    · simp only [order, reduceCtorEq, false_implies, implies_true]
  have hstore : a₁.store = { a₀.store with groups := lastGroup 0 } := groupOrder_padded _ (by decide)
  have hlast := after_turnOvers 999000000 a₁ (by rw [hstore]; rfl) (by rw [hstore])
  let calls : List Call := [.edit (.serverCreate "a" "h" 3389 none none),
    .edit (.serverCreate "b" "h" 3389 (some 999000001) none), .setAssignments 1 [1, 2]]
  refine ⟨App.after (.task 0) {} { a₁ with store := { a₁.store with groups := lastGroup 999000000 } } calls,
    { id := 1, username := "u", incarnation := 0 }, ?_, ?_, ?_, ?_⟩
  · refine reachable_after ?_ (by simp [calls])
    rw [← hlast]
    refine reachable_after hreach fun c hc => ?_
    obtain ⟨k, -, hc⟩ := List.mem_flatMap.1 hc
    simp only [turnOver, List.mem_cons, List.not_mem_nil, or_false] at hc
    rcases hc with rfl | rfl <;> simp
  · decide +kernel
  · decide +kernel
  · decide +kernel

end WebAccess
