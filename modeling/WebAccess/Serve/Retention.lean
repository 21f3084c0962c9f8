/-
Retention of the activity log (`prune_audit` of `server.rs`, `audit_prune` of `store.rs`). A pass deletes in batches and
lets go of the gate between them, so that others write activity while it runs. Whatever they write, it ends, and what it
has deleted by then is what was past retention when it began; a store error cuts it short after some of that, oldest id
first.
-/
import Mathlib.Data.List.Sort
import WebAccess.Lib.Transition
import WebAccess.Store.Tables

namespace WebAccess.Retention

open Wire Transition

/-! ## The table -/

/-- A row of `audit`, with its id. -/
structure AuditEntry where
  id : Int
  row : AuditRow
  deriving DecidableEq

/-- The table `audit`: its rows, in any order, each under an id of its own. -/
structure AuditTable where
  rows : List AuditEntry
  nodup : (rows.map AuditEntry.id).Nodup

namespace AuditTable

/-- `SELECT id FROM audit WHERE at < ?1 ORDER BY id` -/
def oldIds (t : AuditTable) (before : Int) : List Int :=
  ((t.rows.filter fun e => decide (e.row.time < before)).map AuditEntry.id).insertionSort (· ≤ ·)

/-- `LIMIT ?2`; a negative number is no limit. -/
def limit (batch : Int) (ids : List Int) : List Int := if batch < 0 then ids else ids.take batch.toNat

/-- `DELETE FROM audit WHERE id IN …` -/
def deleteIn (t : AuditTable) (ids : List Int) : AuditTable where
  rows := t.rows.filter fun e => decide (e.id ∉ ids)
  nodup := t.nodup.sublist (List.filter_sublist.map _)

/-- `audit_prune`: what is left, and how many rows went. -/
def auditPrune (t : AuditTable) (before batch : Int) : AuditTable × Nat :=
  let ids := limit batch (t.oldIds before)
  (t.deleteIn ids, (t.rows.filter fun e => decide (e.id ∈ ids)).length)

/-- `audit`: the row gets an id that no row has. -/
def write (t : AuditTable) (e : AuditEntry) (h : e.id ∉ t.rows.map AuditEntry.id) : AuditTable where
  rows := e :: t.rows
  nodup := List.nodup_cons.2 ⟨h, t.nodup⟩

end AuditTable

/-! ## A pass -/

def auditPruneBatch : Int := 1000

/-- What happens while a pass runs: somebody writes activity, the pass has a batch deleted, or the store fails it. -/
inductive Act
  | write (e : AuditEntry)
  | batch
  | fail
  deriving DecidableEq

/-- The table, how many entries the pass has removed in how many batches, and what it has returned. -/
structure State where
  table : AuditTable
  removed : Nat := 0
  batches : Nat := 0
  returned : Option Nat := none

/-- The loop of `prune_audit`, one round at a time, and what others write between two of them. -/
def State.step (before : Int) (s : State) : Act → Option State
  | .write e => if h : e.id ∉ s.table.rows.map AuditEntry.id then some { s with table := s.table.write e h } else none
  | .batch =>
    if s.returned.isSome then none
    else
      let (table, n) := s.table.auditPrune before auditPruneBatch
      let removed := s.removed + n
      some { table, removed, batches := s.batches + 1,
             returned := if n < auditPruneBatch.toNat then some removed else none }
  | .fail => if s.returned.isSome then none else some { s with returned := some s.removed }

abbrev PassRun (t : AuditTable) (before : Int) : List (Transition.Entry State Act) → State → Prop :=
  Run (fun s a s' => s.step before a = some s') { table := t }

/-! ## One batch -/

section Batch

variable {t : AuditTable} {before : Int} {ids : List Int}

theorem mem_oldIds {n : Int} : n ∈ t.oldIds before ↔ ∃ e ∈ t.rows, e.row.time < before ∧ e.id = n := by
  simp [AuditTable.oldIds, and_assoc]

theorem nodup_oldIds (t : AuditTable) (before : Int) : (t.oldIds before).Nodup :=
  (List.perm_insertionSort ..).nodup_iff.2 (t.nodup.sublist (List.filter_sublist.map _))

theorem oldIds_write {e : AuditEntry} {h : e.id ∉ t.rows.map AuditEntry.id} (he : before ≤ e.row.time) :
    (t.write e h).oldIds before = t.oldIds before := by
  simp only [AuditTable.oldIds, AuditTable.write]
  rw [List.filter_cons_of_neg (by simpa using he)]

theorem oldIds_deleteIn (t : AuditTable) (before : Int) (ids : List Int) :
    (t.deleteIn ids).oldIds before = (t.oldIds before).filter fun n => decide (n ∉ ids) := by
  refine List.Perm.eq_of_pairwise' (r := (· ≤ ·)) (List.pairwise_insertionSort ..)
    ((List.pairwise_insertionSort ..).sublist List.filter_sublist) ?_
  refine (List.perm_insertionSort ..).trans (.trans ?_ ((List.perm_insertionSort ..).filter _).symm)
  rw [List.filter_map, AuditTable.deleteIn, List.filter_filter, List.filter_filter]
  simp only [Function.comp_apply, Bool.and_comm]
  exact .rfl

theorem filter_notMem_take {l : List Int} (h : l.Nodup) (n : Nat) :
    (l.filter fun k => decide (k ∉ l.take n)) = l.drop n := by
  have hsplit : l.filter (fun k => decide (k ∉ l.take n)) =
      (l.take n).filter (fun k => decide (k ∉ l.take n)) ++ (l.drop n).filter fun k => decide (k ∉ l.take n) := by
    rw [← List.filter_append, List.take_append_drop]
  have hfirst : (l.take n).filter (fun k => decide (k ∉ l.take n)) = [] :=
    List.filter_eq_nil_iff.2 fun k hk => by simpa using hk
  have hrest : (l.drop n).filter (fun k => decide (k ∉ l.take n)) = l.drop n :=
    List.filter_eq_self.2 fun k hk => decide_eq_true fun hmem => List.disjoint_take_drop h (Nat.le_refl n) hmem hk
  rw [hsplit, hfirst, hrest, List.nil_append]

theorem length_deleted (hids : ids.Nodup) (hold : ∀ n ∈ ids, n ∈ t.rows.map AuditEntry.id) :
    (t.rows.filter fun e => decide (e.id ∈ ids)).length = ids.length := by
  rw [← List.length_map AuditEntry.id]
  refine List.Perm.length_eq ((List.perm_ext_iff_of_nodup (t.nodup.sublist (List.filter_sublist.map _)) hids).2
    fun n => ?_)
  rw [List.mem_map]
  constructor
  · rintro ⟨e, he, rfl⟩
    simpa using (List.mem_filter.1 he).2
  · intro hn
    obtain ⟨e, he, rfl⟩ := List.mem_map.1 (hold n hn)
    exact ⟨e, List.mem_filter.2 ⟨he, decide_eq_true hn⟩, rfl⟩

end Batch

section Batch

variable {t : AuditTable} {before : Int}

theorem auditPrune_eq (t : AuditTable) (before : Int) (n : Nat) :
    t.auditPrune before n =
      (t.deleteIn ((t.oldIds before).take n), min n (t.oldIds before).length) := by
  have hlimit : AuditTable.limit n (t.oldIds before) = (t.oldIds before).take n := by
    rw [AuditTable.limit, if_neg (by omega), Int.toNat_natCast]
  rw [AuditTable.auditPrune, hlimit, length_deleted ((nodup_oldIds t before).sublist (List.take_sublist ..)),
    List.length_take]
  intro k hk
  obtain ⟨e, he, -, rfl⟩ := mem_oldIds.1 (List.mem_of_mem_take hk)
  exact List.mem_map_of_mem he

theorem notMem_oldIds {e : AuditEntry} (he : e ∈ t.rows) (htime : before ≤ e.row.time) : e.id ∉ t.oldIds before := by
  intro hmem
  obtain ⟨e', he', hold, hid⟩ := mem_oldIds.1 hmem
  obtain rfl := List.inj_on_of_nodup_map t.nodup he' he hid
  omega

end Batch

/-! ## A whole pass -/

section Pass

variable {t : AuditTable} {before : Int} {tr : List (Transition.Entry State Act)} {s s' : State}

/-- The entry was written in the run. -/
def Written (tr : List (Transition.Entry State Act)) (e : AuditEntry) : Prop := ∃ x ∈ tr, x.label = .write e

variable {x : Transition.Entry State Act} {e : AuditEntry}

theorem written_snoc : Written (tr ++ [x]) e ↔ Written tr e ∨ x.label = .write e := by
  simp [Written, or_and_right, exists_or]

/-- What others write is not past retention. -/
def Recent (before : Int) (tr : List (Transition.Entry State Act)) : Prop := ∀ e, Written tr e → before ≤ e.row.time

/-- No call of the store failed. -/
def Unfailing (tr : List (Transition.Entry State Act)) : Prop := ∀ x ∈ tr, x.label ≠ .fail

theorem unfailing_snoc : Unfailing (tr ++ [x]) ↔ Unfailing tr ∧ x.label ≠ .fail := by
  simp [Unfailing, or_imp, forall_and]

/-- How far a pass has come: it has removed the first of the old rows, and has them to go that come after these. -/
structure Follows (t : AuditTable) (before : Int) (tr : List (Transition.Entry State Act)) (s : State) : Prop where
  removed_le : s.removed ≤ (t.oldIds before).length
  left : s.table.oldIds before = (t.oldIds before).drop s.removed
  rows : ∀ e, e ∈ s.table.rows ↔ (e ∈ t.rows ∧ e.id ∉ (t.oldIds before).take s.removed) ∨ Written tr e
  returned : ∀ n, s.returned = some n → n = s.removed
  running : Unfailing tr → s.returned = none → s.removed = 1000 * s.batches
  ended : Unfailing tr → s.returned.isSome → s.removed = (t.oldIds before).length ∧ 1000 * s.batches ≤ s.removed + 1000

theorem Follows.start (t : AuditTable) (before : Int) : Follows t before [] { table := t } where
  removed_le := Nat.zero_le _
  left := rfl
  rows e := by simp [Written]
  returned := nofun
  running _ _ := rfl
  ended _ := nofun

theorem Follows.write (h : Follows t before tr s) (hstep : s.step before (.write e) = some s')
    (he : before ≤ e.row.time) : Follows t before (tr ++ [⟨s, .write e, s'⟩]) s' := by
  simp only [State.step] at hstep
  split at hstep
  · cases hstep
    refine ⟨h.removed_le, ?_, fun x => ?_, h.returned, fun hu => h.running (unfailing_snoc.1 hu).1,
      fun hu => h.ended (unfailing_snoc.1 hu).1⟩
    · rw [oldIds_write he]
      exact h.left
    · rw [written_snoc, ← or_assoc, ← h.rows]
      simp [AuditTable.write, or_comm, eq_comm]
  · cases hstep

theorem Follows.fail (h : Follows t before tr s) (hstep : s.step before .fail = some s') :
    Follows t before (tr ++ [⟨s, .fail, s'⟩]) s' := by
  simp only [State.step] at hstep
  split at hstep
  · cases hstep
  · cases hstep
    refine ⟨h.removed_le, h.left, fun x => ?_, fun n hn => (Option.some.inj hn).symm,
      fun hu => absurd rfl (unfailing_snoc.1 hu).2, fun hu => absurd rfl (unfailing_snoc.1 hu).2⟩
    rw [written_snoc, h.rows]
    simp

theorem Follows.batch (h : Follows t before tr s) (hrecent : Recent before tr)
    (hstep : s.step before .batch = some s') :
    Follows t before (tr ++ [⟨s, .batch, s'⟩]) s' := by
  simp only [State.step] at hstep
  split at hstep
  · cases hstep
  rename_i hrunning
  have hprune : s.table.auditPrune before auditPruneBatch = _ := auditPrune_eq s.table before 1000
  have hlen := h.removed_le
  rw [hprune, h.left, List.length_drop, show auditPruneBatch.toNat = 1000 from rfl] at hstep
  cases hstep
  have htake : (t.oldIds before).take (s.removed + min 1000 ((t.oldIds before).length - s.removed)) =
      (t.oldIds before).take s.removed ++ ((t.oldIds before).drop s.removed).take 1000 := by
    rw [List.take_add, ← List.length_drop, ← List.take_eq_take_min]
  have hnone : s.returned = none := by simpa using hrunning
  constructor
  · show s.removed + _ ≤ _
    omega
  · show (s.table.deleteIn _).oldIds before = _
    rw [oldIds_deleteIn, h.left, filter_notMem_take ((nodup_oldIds t before).sublist (List.drop_sublist ..)),
      List.drop_drop]
    show _ = (t.oldIds before).drop (s.removed + min 1000 ((t.oldIds before).length - s.removed))
    by_cases hall : 1000 ≤ (t.oldIds before).length - s.removed
    · rw [Nat.min_eq_left hall]
    · rw [List.drop_eq_nil_of_le (by omega), List.drop_eq_nil_of_le (by omega)]
  · intro e
    show e ∈ s.table.rows.filter _ ↔ (e ∈ t.rows ∧ e.id ∉ (t.oldIds before).take _) ∨ _
    rw [htake, List.mem_filter, h.rows, written_snoc, List.mem_append, decide_eq_true_eq]
    have hwritten : Written tr e → e.id ∉ ((t.oldIds before).drop s.removed).take 1000 := fun hw hmem =>
      notMem_oldIds ((h.rows e).2 (.inr hw)) (hrecent e hw) (h.left ▸ List.mem_of_mem_take hmem)
    simp only [reduceCtorEq, or_false]
    tauto
  · intro n hn
    exact (Option.some.inj (Option.ite_none_right_eq_some.1 hn).2).symm
  · intro hu hn
    have hbefore := h.running (unfailing_snoc.1 hu).1 hnone
    have hfull := ite_eq_right_iff.1 hn
    simp only [reduceCtorEq, imp_false] at hfull ⊢
    omega
  · intro hu hn
    have hbefore := h.running (unfailing_snoc.1 hu).1 hnone
    obtain ⟨n, hn⟩ := Option.isSome_iff_exists.1 hn
    have hshort := (Option.ite_none_right_eq_some.1 hn).1
    simp only
    omega

theorem follows_of_run (h : PassRun t before tr s) (hrecent : Recent before tr) : Follows t before tr s := by
  induction h with
  | nil => exact .start t before
  | @snoc tr s s' a hrun hstep ih =>
    have hpast : Recent before tr := fun e he => hrecent e (written_snoc.2 (.inl he))
    cases a with
    | write e => exact (ih hpast).write hstep (hrecent e (written_snoc.2 (.inr rfl)))
    | batch => exact (ih hpast).batch hpast hstep
    | fail => exact (ih hpast).fail hstep

/-- Retention passes end and remove what is past retention. Whatever others write meanwhile, at every moment of a pass
the rows it has removed are the first of the old ones by id, it has touched no other row, and it returns their number;
if no call of the store fails, it takes at most one batch more than the old rows fill, is never kept from taking the
next one, and has removed every row that was old when it began once it returns. -/
theorem retention_pass_exact (h : PassRun t before tr s) (hrecent : Recent before tr) :
    (∃ k ≤ (t.oldIds before).length,
      (∀ e, e ∈ s.table.rows ↔ (e ∈ t.rows ∧ e.id ∉ (t.oldIds before).take k) ∨ Written tr e) ∧
      ∀ n, s.returned = some n → n = k) ∧
    (Unfailing tr →
      s.batches ≤ (t.oldIds before).length / auditPruneBatch.toNat + 1 ∧
      (s.returned = none →
        s.batches ≤ (t.oldIds before).length / auditPruneBatch.toNat ∧ ∃ s', s.step before .batch = some s') ∧
      ∀ n, s.returned = some n →
        n = (t.rows.filter fun e => decide (e.row.time < before)).length ∧
        ∀ e, e ∈ s.table.rows ↔ (e ∈ t.rows ∧ before ≤ e.row.time) ∨ Written tr e) := by
  have hf := follows_of_run h hrecent
  refine ⟨⟨s.removed, hf.removed_le, hf.rows, hf.returned⟩, fun hu =>
    ⟨?_, fun hnone => ⟨?_, ?_⟩, fun n hn => ⟨?_, fun e => ?_⟩⟩⟩
  · rw [show auditPruneBatch.toNat = 1000 from rfl]
    have hle := hf.removed_le
    cases hr : s.returned with
    | none =>
      have := hf.running hu hr
      omega
    | some n =>
      have := hf.ended hu (by rw [hr]; rfl)
      omega
  · rw [show auditPruneBatch.toNat = 1000 from rfl]
    have hle := hf.removed_le
    have := hf.running hu hnone
    omega
  · simp only [State.step, hnone]
    exact ⟨_, rfl⟩
  · rw [hf.returned n hn, (hf.ended hu (by rw [hn]; rfl)).1]
    simp [AuditTable.oldIds]
  · rw [hf.rows, (hf.ended hu (by rw [hn]; rfl)).1, List.take_length]
    refine or_congr_left (and_congr_right fun he => ⟨fun hid => ?_, notMem_oldIds he⟩)
    exact Int.not_lt.1 fun hold => hid (mem_oldIds.2 ⟨e, he, hold, rfl⟩)

end Pass

def twoRows : AuditTable := ⟨[⟨1, ⟨50, ⟨[], [], []⟩⟩⟩, ⟨2, ⟨150, ⟨[], [], []⟩⟩⟩], by decide⟩

/-- Activity written before the first batch is left alone. -/
theorem retention_pass_two : ∃ tr s, PassRun twoRows 100 tr s ∧ Recent 100 tr ∧ Unfailing tr ∧ s.returned = some 1 ∧
    ∀ e, e ∈ s.table.rows ↔ (e ∈ twoRows.rows ∧ 100 ≤ e.row.time) ∨ Written tr e := by
  obtain ⟨s, hrun, hs⟩ := run_of_exec (State.step 100) { table := twoRows } [.write ⟨3, ⟨200, ⟨[], [], []⟩⟩⟩, .batch]
    (fun s => s.returned == some 1) (by decide)
  generalize htr : trace (State.step 100) _ _ = tr at hrun
  have hlabels : ∀ x ∈ tr, x.label ∈ [.write ⟨3, ⟨200, ⟨[], [], []⟩⟩⟩, .batch] :=
    fun x hx => label_mem_of_trace (htr ▸ hx)
  have hrecent : Recent 100 tr := by
    rintro e ⟨x, hx, hlabel⟩
    have hmem := hlabels x hx
    rw [hlabel] at hmem
    simp only [List.mem_cons, Act.write.injEq, reduceCtorEq, List.not_mem_nil, or_false] at hmem
    rw [hmem]
    decide
  have hunfailing : Unfailing tr := fun x hx hlabel => absurd (hlabel ▸ hlabels x hx) (by decide)
  have hreturned : s.returned = some 1 := by simpa using hs
  exact ⟨tr, s, hrun, hrecent, hunfailing, hreturned,
    (((retention_pass_exact hrun hrecent).2 hunfailing).2.2 1 hreturned).2⟩

end WebAccess.Retention
