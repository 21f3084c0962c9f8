/-
A list gathered under headings by a fold that only looks at the last heading, over arbitrary items
and headings. Nothing is lost, every item stands under its own heading, and when the list is sorted
by a key that is the same exactly where the heading is, the runs are in the order of the keys: no
heading comes twice.
-/
import Mathlib.Data.List.Induction
import Mathlib.Order.Lattice

namespace WebAccess

/-- Neighbours under one heading. -/
structure Titled (κ α : Type) where
  heading : κ
  items : List α
  deriving DecidableEq

namespace Titled

variable {κ α : Type} [DecidableEq κ] {f : α → κ}

/-- An item goes under the last heading, if that is its own, and otherwise under a new one. -/
def push (f : α → κ) (runs : List (Titled κ α)) (a : α) : List (Titled κ α) :=
  match runs.getLast? with
  | some r => if r.heading = f a then runs.dropLast ++ [⟨r.heading, r.items ++ [a]⟩] else runs ++ [⟨f a, [a]⟩]
  | none => runs ++ [⟨f a, [a]⟩]

/-- The items of a list under their headings. -/
def gather (f : α → κ) (l : List α) : List (Titled κ α) := l.foldl (push f) []

theorem gather_concat (l : List α) (a : α) : gather f (l ++ [a]) = push f (gather f l) a := by
  rw [gather, List.foldl_append]
  rfl

/-- The two ways an item is pushed. -/
theorem push_cases (runs : List (Titled κ α)) (a : α) :
    (∃ front last, runs = front ++ [last] ∧ last.heading = f a ∧
      push f runs a = front ++ [⟨last.heading, last.items ++ [a]⟩]) ∨
    (∀ front last, runs = front ++ [last] → last.heading ≠ f a) ∧ push f runs a = runs ++ [⟨f a, [a]⟩] := by
  rcases List.eq_nil_or_concat runs with rfl | ⟨front, last, rfl⟩
  · exact .inr ⟨fun front last h => absurd h (by simp), rfl⟩
  · rw [List.concat_eq_append, push, List.getLast?_concat, List.dropLast_concat]
    by_cases h : last.heading = f a
    · exact .inl ⟨front, last, rfl, h, if_pos h⟩
    · refine .inr ⟨fun front' last' heq => ?_, if_neg h⟩
      obtain ⟨-, hlast⟩ := List.append_inj' heq rfl
      cases hlast
      exact h

/-- Nothing is lost or moved. -/
theorem items_gather (l : List α) : (gather f l).flatMap items = l := by
  induction l using List.reverseRecOn with
  | nil => rfl
  | append_singleton l a ih =>
    rw [gather_concat]
    rcases push_cases (f := f) (gather f l) a with ⟨front, last, hruns, -, hpush⟩ | ⟨-, hpush⟩
    · rw [hruns] at ih
      rw [hpush, ← ih]
      simp
    · rw [hpush, List.flatMap_append, ih]
      simp

/-- Every run has items, and they are under their own heading. -/
theorem own_gather (l : List α) : ∀ r ∈ gather f l, r.items ≠ [] ∧ ∀ a ∈ r.items, f a = r.heading := by
  induction l using List.reverseRecOn with
  | nil => exact nofun
  | append_singleton l a ih =>
    intro r hr
    rw [gather_concat] at hr
    rcases push_cases (f := f) (gather f l) a with ⟨front, last, hruns, hsame, hpush⟩ | ⟨-, hpush⟩
    · rw [hruns] at ih
      rw [hpush] at hr
      rcases List.mem_append.1 hr with hr | hr
      · exact ih r (List.mem_append_left _ hr)
      · obtain rfl := List.mem_singleton.1 hr
        refine ⟨by simp, fun b hb => ?_⟩
        rcases List.mem_append.1 hb with hb | hb
        · exact (ih last (by simp)).2 b hb
        · rw [List.mem_singleton.1 hb, hsame]
    · rw [hpush] at hr
      rcases List.mem_append.1 hr with hr | hr
      · exact ih r hr
      · obtain rfl := List.mem_singleton.1 hr
        exact ⟨by simp, fun b hb => by rw [List.mem_singleton.1 hb]⟩

theorem mem_of_mem_gather {l : List α} {r : Titled κ α} {a : α} (hr : r ∈ gather f l) (ha : a ∈ r.items) : a ∈ l := by
  rw [← items_gather (f := f) l]
  exact List.mem_flatMap.2 ⟨r, hr, ha⟩

/-- The runs of a list that is sorted by what its headings stand for are in that order. -/
theorem pairwise_gather {ι : Type} [LinearOrder ι] {key : α → ι} {l : List α}
    (hsorted : l.Pairwise fun a b => key a ≤ key b)
    (hkey : ∀ a ∈ l, ∀ b ∈ l, f a = f b ↔ key a = key b) :
    (gather f l).Pairwise fun r r' => ∀ a ∈ r.items, ∀ b ∈ r'.items, key a < key b := by
  induction l using List.reverseRecOn with
  | nil => exact .nil
  | append_singleton l a ih =>
    obtain ⟨hl, -, hle⟩ := List.pairwise_append.1 hsorted
    have hbefore : ∀ b ∈ l, key b ≤ key a := fun b hb => hle b hb a (List.mem_singleton.2 rfl)
    have ih := ih hl fun b hb c hc => hkey b (List.mem_append_left _ hb) c (List.mem_append_left _ hc)
    have hsame : ∀ b ∈ l, f b = f a ↔ key b = key a := fun b hb => hkey b (List.mem_append_left _ hb) a (by simp)
    rw [gather_concat]
    rcases push_cases (f := f) (gather f l) a with ⟨front, last, hruns, hlast, hpush⟩ | ⟨hother, hpush⟩
    · -- the last run goes on, with items of one key
      rw [hruns] at ih
      obtain ⟨hfront, -, hcross⟩ := List.pairwise_append.1 ih
      rw [hpush]
      refine List.pairwise_append.2 ⟨hfront, List.pairwise_singleton _ _, fun r hr r' hr' b hb c hc => ?_⟩
      obtain rfl := List.mem_singleton.1 hr'
      have hmem : last ∈ gather f l := by simp [hruns]
      obtain ⟨hne, hown⟩ := own_gather l last hmem
      rcases List.mem_append.1 hc with hc | hc
      · exact hcross r hr last (by simp) b hb c hc
      · obtain ⟨d, hd⟩ := List.exists_mem_of_ne_nil _ hne
        have hkeys := (hsame d (mem_of_mem_gather hmem hd)).1 ((hown d hd).trans hlast)
        rw [List.mem_singleton.1 hc, ← hkeys]
        exact hcross r hr last (by simp) b hb d hd
    · rw [hpush]
      refine List.pairwise_append.2 ⟨ih, List.pairwise_singleton _ _, fun r hr r' hr' b hb c hc => ?_⟩
      obtain rfl := List.mem_singleton.1 hr'
      rw [List.mem_singleton.1 hc]
      have hb' := mem_of_mem_gather hr hb
      refine lt_of_le_of_ne (hbefore b hb') fun heq => ?_
      -- an item with the key of the new one is in the last run, which has another heading
      rcases List.eq_nil_or_concat (gather f l) with hnil | ⟨front, last, hruns⟩
      · rw [hnil] at hr
        cases hr
      · rw [List.concat_eq_append] at hruns
        have hmem : last ∈ gather f l := by simp [hruns]
        obtain ⟨hne, hown⟩ := own_gather l last hmem
        rw [hruns] at hr ih
        rcases List.mem_append.1 hr with hr | hr
        · obtain ⟨d, hd⟩ := List.exists_mem_of_ne_nil _ hne
          have hlt := (List.pairwise_append.1 ih).2.2 r hr last (by simp) b hb d hd
          exact absurd (hbefore d (mem_of_mem_gather hmem hd)) (not_le.2 (heq ▸ hlt))
        · obtain rfl := List.mem_singleton.1 hr
          exact hother front r hruns ((hown b hb).symm.trans ((hsame b hb').2 heq))

end Titled

end WebAccess
