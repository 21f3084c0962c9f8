/-
Edge detectors, over arbitrary states and inputs: a machine with a standing that is good or bad and that
asks for a line when the standing changes. The lines it asks for alternate, and the last of them tells the
standing it has come to.
-/
import Mathlib.Data.List.Basic

namespace WebAccess.Edges

variable {σ ι β κ : Type}

/-! ## Two values in turn -/

/-- `n` values, `a` and `b` in turn, `a` first. -/
def alternating (a b : κ) : Nat → List κ
  | 0 => []
  | n + 1 => a :: alternating b a n

/-! ## Detectors -/

section Detector

variable (step : σ → ι → σ × Option β)

/-- The lines asked for over a sequence of inputs. -/
def lines : σ → List ι → List β
  | _, [] => []
  | s, i :: rest => (step s i).2.toList ++ lines (step s i).1 rest

/-- The state after a sequence of inputs. -/
def final (s : σ) (inputs : List ι) : σ := inputs.foldl (fun s i => (step s i).1) s

/-- A line is asked for when the standing changes and only then, and names the new one. -/
def Detects (failing : σ → Bool) (name : Bool → κ) (tells : β → κ) : Prop := ∀ s i,
  (step s i).2.map tells = if failing (step s i).1 = failing s then none else some (name (failing (step s i).1))

end Detector

variable {step : σ → ι → σ × Option β} {failing : σ → Bool} {name : Bool → κ} {tells : β → κ}

theorem final_snoc (s : σ) (inputs : List ι) (i : ι) :
    final step s (inputs ++ [i]) = (step (final step s inputs) i).1 := by
  simp [final]

theorem map_lines_cons (s : σ) (i : ι) (rest : List ι) :
    (lines step s (i :: rest)).map tells = ((step s i).2.map tells).toList ++
        (lines step (step s i).1 rest).map tells := by
  rw [lines, List.map_append]
  cases (step s i).2 <;> rfl

/-- The lines alternate, and the first one says that the standing is no longer what it was at the start. -/
theorem Detects.lines_alternate (h : Detects step failing name tells) (s : σ) (inputs : List ι) :
    ∃ n, (lines step s inputs).map tells = alternating (name !failing s) (name (failing s)) n := by
  induction inputs generalizing s with
  | nil => exact ⟨0, rfl⟩
  | cons i rest ih =>
    obtain ⟨n, hrest⟩ := ih (step s i).1
    rw [map_lines_cons, h s i, hrest]
    by_cases hsame : failing (step s i).1 = failing s
    · exact ⟨n, by simp [hsame]⟩
    · refine ⟨n + 1, ?_⟩
      rw [if_neg hsame, Bool.eq_not_of_ne hsame]
      simp [alternating]

/-- The last line tells the standing, the standing at the start when there is none. -/
theorem Detects.last_line (h : Detects step failing name tells) (s : σ) (inputs : List ι) :
    ((lines step s inputs).map tells).getLast?.getD (name (failing s)) = name (failing (final step s inputs)) := by
  induction inputs generalizing s with
  | nil => rfl
  | cons i rest ih =>
    have hrest : _ = name (failing (final step s (i :: rest))) := ih (step s i).1
    rw [map_lines_cons, h s i, ← hrest]
    by_cases hsame : failing (step s i).1 = failing s
    · simp [hsame]
    · simp [hsame, List.getLast?_cons]

end WebAccess.Edges
