/-
A readers and writer lock over arbitrary holders: any number of holders share it, or one has it
alone. The lock keeps who holds it, so that what a holder may rely on is a fact about that holder
and the lock, with no counting: while one holder has the lock in any way, no other has it alone
(`Gate.eq_of_exclusive`).
-/
import Mathlib.Data.List.Basic

namespace WebAccess

/-- How a gate is held. -/
inductive Hold
  | shared
  | exclusive
  deriving DecidableEq

theorem Gate.idle {ι : Type} : (none : Option ι).isSome → ([] : List ι) = [] := fun _ => rfl

/-- Who shares the gate, and who has it alone. -/
structure Gate (ι : Type) where
  readers : List ι := []
  writer : Option ι := none
  excl : writer.isSome → readers = [] := by exact Gate.idle

namespace Gate

variable {ι : Type}

/-- Whether a holder has to wait. -/
def blocks (g : Gate ι) : Hold → Bool
  | .shared => g.writer.isSome
  | .exclusive => g.writer.isSome || !g.readers.isEmpty

/-- The gate is taken, if nobody is in the way. -/
def acquire (g : Gate ι) (me : ι) : Hold → Gate ι
  | .shared => if h : g.writer.isSome then g else ⟨me :: g.readers, g.writer, fun h' => absurd h' h⟩
  | .exclusive => if g.blocks .exclusive then g else ⟨[], some me, fun _ => rfl⟩

variable [DecidableEq ι]

/-- The gate is given back. -/
def release (g : Gate ι) (me : ι) : Gate ι where
  readers := g.readers.filter (· ≠ me)
  writer := g.writer.filter (· ≠ me)
  excl h := by
    have hw : g.writer.isSome := by
      cases hw : g.writer with
      | none => rw [hw] at h; exact h
      | some _ => rfl
    rw [g.excl hw, List.filter_nil]

/-- How a holder holds it. -/
def holds (g : Gate ι) (me : ι) : Option Hold :=
  if g.writer = some me then some .exclusive else if me ∈ g.readers then some .shared else none

variable {g : Gate ι} {me other : ι} {m : Hold}

theorem holds_acquire_self (h : g.blocks m = false) : (g.acquire me m).holds me = some m := by
  cases m with
  | shared =>
    have hw : g.writer = none := Option.not_isSome_iff_eq_none.1 (by simpa [blocks] using h)
    simp [acquire, holds, hw]
  | exclusive => simp [acquire, holds, h]

theorem holds_acquire_of_ne (hne : other ≠ me) : (g.acquire me m).holds other = g.holds other := by
  cases m with
  | shared =>
    simp only [acquire]
    split
    · rfl
    · simp [holds, hne]
  | exclusive =>
    simp only [acquire]
    split
    · rfl
    · rename_i h
      obtain ⟨hw, hr⟩ : g.writer = none ∧ g.readers = [] := by simpa [blocks] using h
      simp [holds, hw, hr, hne.symm]

theorem holds_release_of_ne (hne : other ≠ me) : (g.release me).holds other = g.holds other := by
  obtain ⟨readers, writer, excl⟩ := g
  cases writer with
  | none => simp [holds, release, hne]
  | some v =>
    obtain rfl := excl rfl
    by_cases hv : v = me
    · simp [holds, release, Option.filter, hv, hne.symm]
    · simp [holds, release, Option.filter, hv]

/-- While one holder has the gate in any way, no other has it alone. -/
theorem eq_of_exclusive (h : g.holds me = some .exclusive) (hother : g.holds other ≠ none) : other = me := by
  unfold holds at h
  split at h
  · rename_i hw
    unfold holds at hother
    split at hother
    · rename_i hw'
      exact Option.some_inj.1 (hw'.symm.trans hw)
    · rw [g.excl (by rw [hw]; rfl)] at hother
      simp at hother
  · split at h <;> cases h

end Gate

end WebAccess
