/-
Compare-exchange loops on one shared cell, run by any number of threads. A call reads the cell,
works out the next value from what it read, and swaps it in if the cell still holds what was read;
else it goes on with what the cell holds now. Where there is no next value it gives up. Others may
set the cell at any time. A call gives up only if the cell held, at some moment during the call, a
value without a next one; and while no call returns every turn of a thread uses up something that
only a setting of the cell can give back.
-/
import Mathlib.Algebra.BigOperators.Group.Finset.Basic
import Mathlib.Algebra.Order.BigOperators.Group.Finset
import WebAccess.Lib.Transition

namespace WebAccess.Retry

open Transition

variable {τ V A : Type*}

/-- Where a thread is in its calls: `read a seen` has `seen` as the value it read last. -/
inductive Thread (V A : Type*)
  | ready
  | called (a : A)
  | read (a : A) (seen : V)
  | returned (got : Option A)
  deriving DecidableEq

/-- The argument of the call that is going on. -/
def Thread.arg? : Thread V A → Option A
  | .called a | .read a _ => some a
  | .ready | .returned _ => none

/-- The cell, and where every thread is. -/
structure Shared (τ V A : Type*) where
  cell : V
  threads : τ → Thread V A

/-- What a thread does next: begin a call, read the cell, or try to swap. -/
inductive Turn (A : Type*)
  | call (a : A)
  | load
  | attempt

section Turns

variable [DecidableEq τ]

def Shared.put (s : Shared τ V A) (t : τ) (th : Thread V A) : Shared τ V A :=
  { s with threads := Function.update s.threads t th }

variable {s s' : Shared τ V A} {t : τ}

@[simp] theorem Shared.put_cell (th : Thread V A) : (s.put t th).cell = s.cell := rfl

@[simp] theorem Shared.put_threads_self (th : Thread V A) : (s.put t th).threads t = th :=
  Function.update_self ..

theorem Shared.put_threads_ne {t' : τ} (th : Thread V A) (h : t' ≠ t) : (s.put t th).threads t' = s.threads t' :=
  Function.update_of_ne h ..

variable [DecidableEq V]

/-- One turn of a thread, `next` being what a call makes of a value it read. -/
def Shared.turn (next : A → V → Option V) (s : Shared τ V A) (t : τ) : Turn A → Option (Shared τ V A)
  | .call a => match s.threads t with
    | .ready | .returned _ => some (s.put t (.called a))
    | _ => none
  | .load => match s.threads t with
    | .called a => some (s.put t (.read a s.cell))
    | _ => none
  | .attempt => match s.threads t with
    | .read a seen => match next a seen with
      | none => some (s.put t (.returned none))
      | some v =>
        if s.cell = seen then some ({ s with cell := v }.put t (.returned (some a)))
        else some (s.put t (.read a s.cell))
    | _ => none

/-- What a turn of a thread can be. -/
inductive Took (next : A → V → Option V) (s : Shared τ V A) (t : τ) : Turn A → Shared τ V A → Prop
  | call {a : A} (idle : (s.threads t).arg? = none) : Took next s t (.call a) (s.put t (.called a))
  | load {a : A} (called : s.threads t = .called a) : Took next s t .load (s.put t (.read a s.cell))
  | gaveUp {a : A} {seen : V} (read : s.threads t = .read a seen) (stuck : next a seen = none) :
      Took next s t .attempt (s.put t (.returned none))
  | swapped {a : A} {v : V} (read : s.threads t = .read a s.cell) (fits : next a s.cell = some v) :
      Took next s t .attempt ({ s with cell := v }.put t (.returned (some a)))
  | missed {a : A} {seen : V} (read : s.threads t = .read a seen) (stale : s.cell ≠ seen) :
      Took next s t .attempt (s.put t (.read a s.cell))

/-- All that can happen to the cell and the threads. -/
inductive Moves (next : A → V → Option V) (s : Shared τ V A) : Shared τ V A → Prop
  | turn {t : τ} {a : Turn A} {s' : Shared τ V A} (took : Took next s t a s') : Moves next s s'
  | set (v : V) : Moves next s { s with cell := v }

variable {next : A → V → Option V}

theorem Shared.took {a : Turn A} (h : s.turn next t a = some s') : Took next s t a s' := by
  cases a with
  | call a =>
    simp only [turn] at h
    split at h
    case h_1 hth | h_2 hth =>
      cases h
      exact .call (by rw [hth]; rfl)
    case h_3 => cases h
  | load =>
    simp only [turn] at h
    split at h
    · cases h
      exact .load ‹_›
    · cases h
  | attempt =>
    simp only [turn] at h
    split at h
    · rename_i a seen hread
      split at h
      · cases h
        exact .gaveUp hread ‹_›
      · rename_i v hv
        split at h
        · rename_i hcell
          cases h
          exact .swapped (hcell ▸ hread) (hcell ▸ hv)
        · cases h
          exact .missed hread ‹_›
    · cases h

end Turns

/-! ## What a call has seen -/

section Calls

variable [DecidableEq τ] {next : A → V → Option V} {s s' : Shared τ V A}

/-- A call returns. -/
def Returns (s s' : Shared τ V A) : Prop :=
  ∃ t, (s.threads t).arg? ≠ none ∧ (s'.threads t).arg? = none

theorem returns_put {t : τ} {a : A} {seen : V} {got : Option A} {s₁ : Shared τ V A} (h : s.threads t = .read a seen) :
    Returns s (s₁.put t (.returned got)) := by
  refine ⟨t, ?_, ?_⟩
  · rw [h]
    exact Option.some_ne_none a
  · rw [Shared.put_threads_self]
    rfl

/-- A thread keeps what it read, unless it read it just now. -/
theorem Moves.read_of_read {t : τ} {a : A} {v : V} (h : Moves next s s') (hread : s'.threads t = .read a v) :
    s.threads t = .read a v ∨ (s.threads t).arg? = some a ∧ s.cell = v := by
  have hkept : ∀ {t' : τ} {th : Thread V A} {s₁ : Shared τ V A}, s₁.threads = s.threads →
      (s₁.put t' th).threads t = .read a v → s.threads t = .read a v ∨ t' = t ∧ th = .read a v := by
    intro t' th s₁ hs₁ hput
    by_cases ht : t = t'
    · subst ht
      rw [Shared.put_threads_self] at hput
      exact .inr ⟨rfl, hput⟩
    · rw [Shared.put_threads_ne _ ht, hs₁] at hput
      exact .inl hput
  rcases h with took | v
  case set => exact .inl hread
  cases took with
  | call | gaveUp | swapped =>
    rcases hkept rfl hread with hread | ⟨-, hth⟩
    · exact .inl hread
    · cases hth
  | load called =>
    rcases hkept rfl hread with hread | ⟨rfl, hth⟩
    · exact .inl hread
    · cases hth
      exact .inr ⟨by rw [called]; rfl, rfl⟩
  | missed read stale =>
    rcases hkept rfl hread with hread | ⟨rfl, hth⟩
    · exact .inl hread
    · cases hth
      exact .inr ⟨by rw [read]; rfl, rfl⟩

variable {σ α : Type*} {step : σ → α → σ → Prop} {view : σ → Shared τ V A} {s₀ : σ} {tr : List (Entry σ α)} {x : σ}

/-- What a thread has read the cell held at a moment of the call that is going on. -/
theorem Run.read_during (hrun : Run step s₀ tr x) (hstep : ∀ s l s', step s l s' → Moves next (view s) (view s'))
    (hstart : ∀ t, ((view s₀).threads t).arg? = none) {t : τ} {a : A} {v : V}
    (hread : (view x).threads t = .read a v) :
    ∃ tr₁ e tr₂, tr = tr₁ ++ e :: tr₂ ∧ (view e.pre).cell = v ∧
      ∀ e' ∈ e :: tr₂, ((view e'.pre).threads t).arg? = some a := by
  refine hrun.history ?_ ?_ hread
  · intro hread
    have hnone := hstart t
    rw [hread] at hnone
    cases hnone
  · intro tr s l s' _ ih hs hread
    rcases (hstep s l s' hs).read_of_read hread with hbefore | ⟨harg, hcell⟩
    · obtain ⟨tr₁, e, tr₂, rfl, hcell, hduring⟩ := ih hbefore
      refine ⟨tr₁, e, tr₂ ++ [⟨s, l, s'⟩], by simp, hcell, fun e' he' => ?_⟩
      rw [← List.cons_append, List.mem_append, List.mem_singleton] at he'
      rcases he' with he' | rfl
      · exact hduring e' he'
      · show ((view s).threads t).arg? = some a
        rw [hbefore]
        rfl
    · refine ⟨tr, ⟨s, l, s'⟩, [], rfl, hcell, fun e' he' => ?_⟩
      obtain rfl := List.mem_singleton.1 he'
      exact harg

end Calls

/-! ## Progress -/

section Progress

variable [DecidableEq V] {next : A → V → Option V} {s s' : Shared τ V A}

/-- The turns a thread can take before its call returns, if nobody touches the cell. -/
def Thread.left (cell : V) : Thread V A → Nat
  | .ready | .returned _ => 2
  | .called _ => 1
  | .read _ seen => if seen = cell then 0 else 1

theorem Thread.left_le (cell : V) (th : Thread V A) : th.left cell ≤ 2 := by
  cases th with
  | ready | returned => exact le_rfl
  | called => exact Nat.le_succ 1
  | read a seen =>
    simp only [left]
    split <;> omega

variable [Fintype τ]

def Shared.left (s : Shared τ V A) : Nat := ∑ t, (s.threads t).left s.cell

theorem Shared.left_le (s : Shared τ V A) : s.left ≤ 2 * Fintype.card τ := by
  calc s.left ≤ ∑ _ : τ, 2 := Finset.sum_le_sum fun t _ => Thread.left_le _ _
    _ = 2 * Fintype.card τ := by simp [Nat.mul_comm]

/-- Setting the cell makes at most one more turn necessary for every thread. -/
theorem Shared.left_set (s : Shared τ V A) (v : V) :
    ({ s with cell := v } : Shared τ V A).left ≤ s.left + Fintype.card τ := by
  have hone : ∀ th : Thread V A, th.left v ≤ th.left s.cell + 1 := by
    intro th
    cases th with
    | ready | called | returned => exact Nat.le_succ _
    | read a seen =>
      simp only [Thread.left]
      split <;> omega
  calc ({ s with cell := v } : Shared τ V A).left ≤ ∑ t, ((s.threads t).left s.cell + 1) :=
        Finset.sum_le_sum fun t _ => hone _
    _ = s.left + Fintype.card τ := by simp [left, Finset.sum_add_distrib]

variable [DecidableEq τ]

theorem Shared.left_put_lt {t : τ} {th : Thread V A} (h : th.left s.cell < (s.threads t).left s.cell) :
    (s.put t th).left < s.left := by
  refine Finset.sum_lt_sum (fun t' _ => ?_) ⟨t, Finset.mem_univ t, by simpa using h⟩
  by_cases ht : t' = t
  · subst ht
    simpa using h.le
  · rw [put_threads_ne _ ht]
    exact le_rfl

/-- A turn after which no call has returned is one turn less. -/
theorem Took.left_lt {t : τ} {a : Turn A} (h : Took next s t a s') (hno : ¬ Returns s s') : s'.left < s.left := by
  cases h with
  | gaveUp read | swapped read => exact absurd (returns_put read) hno
  | call idle =>
    refine Shared.left_put_lt ?_
    cases hth : s.threads t with
    | ready | returned => exact Nat.lt_succ_self 1
    | called | read =>
      rw [hth] at idle
      cases idle
  | load called => exact Shared.left_put_lt (by simp [called, Thread.left])
  | missed read stale => exact Shared.left_put_lt (by simp [read, Thread.left, Ne.symm stale])

end Progress

end WebAccess.Retry
