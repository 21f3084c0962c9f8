/-
A list without the elements of a kind at its two ends. Nothing is left to take off it, and a list that has
none of them at its ends is left as it is.
-/
import Mathlib.Data.List.TakeWhile

namespace WebAccess.Trimming

variable {α : Type*} {p : α → Bool} {l : List α}

/-- The elements of the kind are taken off both ends. -/
def stripEnds (p : α → Bool) (l : List α) : List α := ((l.dropWhile p).reverse.dropWhile p).reverse

/-- Neither end is of the kind. -/
def Bare (p : α → Bool) (l : List α) : Prop := (∀ a ∈ l.head?, p a = false) ∧ ∀ a ∈ l.getLast?, p a = false

theorem bare_of_forall (h : ∀ a ∈ l, p a = false) : Bare p l :=
  ⟨fun a ha => h a (List.mem_of_mem_head? ha), fun a ha => h a (List.mem_of_mem_getLast? ha)⟩

theorem dropWhile_eq_self (h : ∀ a ∈ l.head?, p a = false) : l.dropWhile p = l := by
  cases l with
  | nil => rfl
  | cons a l => rw [List.dropWhile_cons_of_neg (by simp [h a rfl])]

theorem head?_dropWhile {a : α} (h : a ∈ (l.dropWhile p).head?) : p a = false := by
  have hhead := List.head?_dropWhile_not p l
  rw [Option.mem_def.1 h] at hhead
  simpa using hhead

theorem stripEnds_of_bare (h : Bare p l) : stripEnds p l = l := by
  have hlast : l.reverse.dropWhile p = l.reverse :=
    dropWhile_eq_self fun a ha => h.2 a (by rwa [List.head?_reverse] at ha)
  rw [stripEnds, dropWhile_eq_self h.1, hlast, List.reverse_reverse]

/-- There is nothing left to take off. -/
theorem bare_stripEnds (p : α → Bool) (l : List α) : Bare p (stripEnds p l) := by
  refine ⟨fun a ha => ?_, fun a ha => ?_⟩
  · -- the first element left is the first that is not dropped at the start
    rw [stripEnds, List.head?_reverse] at ha
    refine head?_dropWhile (p := p) (l := l) ?_
    obtain ⟨gone, hgone⟩ : (l.dropWhile p).reverse.dropWhile p <:+ (l.dropWhile p).reverse := List.dropWhile_suffix p
    have hlast := congrArg List.getLast? hgone
    rw [List.getLast?_append, Option.mem_def.1 ha, Option.some_or, List.getLast?_reverse] at hlast
    exact hlast.symm
  · rw [stripEnds, List.getLast?_reverse] at ha
    exact head?_dropWhile ha

theorem stripEnds_infix (p : α → Bool) (l : List α) : stripEnds p l <:+: l := by
  have hend : stripEnds p l <+: l.dropWhile p := by
    rw [stripEnds, ← List.reverse_suffix, List.reverse_reverse]
    exact List.dropWhile_suffix p
  exact hend.isInfix.trans (List.dropWhile_suffix p).isInfix

theorem stripEnds_eq_self_iff : stripEnds p l = l ↔ Bare p l :=
  ⟨fun h => h ▸ bare_stripEnds p l, stripEnds_of_bare⟩

end WebAccess.Trimming
