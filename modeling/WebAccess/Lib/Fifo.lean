/-
Requests answered in order by someone who answers each once: the answers given so far belong to
the oldest requests, so the k-th answer is the answer to the k-th request and what is pending is
the rest. No identifier ties an answer to its request, only its place.
-/
import Mathlib.Data.List.Basic

namespace WebAccess.Fifo

variable {α β : Type*}

/-- The requests without an answer yet, oldest first. -/
def pending (asked : List α) (answers : List β) : List α := asked.drop answers.length

/-- `b` is the answer to a request `a`. -/
def Paired (asked : List α) (answers : List β) (a : α) (b : β) : Prop :=
  ∃ k : Nat, asked[k]? = some a ∧ answers[k]? = some b

variable {asked : List α} {answers : List β} {a : α} {b : β} {rest : List α}

/-- A new request is the last one pending, when nothing was answered that was not asked. -/
theorem pending_ask (h : answers.length ≤ asked.length) (l : List α) :
    pending (asked ++ l) answers = pending asked answers ++ l := List.drop_append_of_le_length h

theorem length_of_pending_cons (h : pending asked answers = a :: rest) : answers.length < asked.length := by
  have hlen := congrArg List.length h
  rw [pending, List.length_drop, List.length_cons] at hlen
  omega

/-- Where one more answer is due, a request is pending. -/
theorem pending_cons_of_asked (h : (answers ++ [b]).length ≤ asked.length) :
    ∃ a rest, pending asked answers = a :: rest := by
  rw [List.length_append, List.length_singleton] at h
  refine List.exists_cons_of_length_pos ?_
  rw [pending, List.length_drop]
  omega

/-- The next answer is to the oldest request pending. -/
theorem getElem?_of_pending_cons (h : pending asked answers = a :: rest) : asked[answers.length]? = some a := by
  have hhead := congrArg List.head? h
  rwa [pending, List.head?_drop] at hhead

theorem pending_answer (h : pending asked answers = a :: rest) (b : β) : pending asked (answers ++ [b]) = rest := by
  rw [pending, List.length_append, List.length_singleton, ← List.drop_drop, ← pending, h, List.drop_one, List.tail_cons]

theorem Paired.ask (h : Paired asked answers a b) (l : List α) : Paired (asked ++ l) answers a b := by
  obtain ⟨k, ha, hb⟩ := h
  exact ⟨k, by rw [List.getElem?_append_left (List.getElem?_eq_some_iff.1 ha).1, ha], hb⟩

theorem Paired.answer (h : Paired asked answers a b) (b' : β) : Paired asked (answers ++ [b']) a b := by
  obtain ⟨k, ha, hb⟩ := h
  exact ⟨k, ha, by rw [List.getElem?_append_left (List.getElem?_eq_some_iff.1 hb).1, hb]⟩

/-- An answer is paired with the oldest request pending. -/
theorem paired_of_pending_cons (h : pending asked answers = a :: rest) (b : β) : Paired asked (answers ++ [b]) a b :=
  ⟨answers.length, getElem?_of_pending_cons h, by simp⟩

end WebAccess.Fifo
