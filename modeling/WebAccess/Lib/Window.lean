/-
Budgets over a sliding window. Times are natural numbers of any unit; a time is live while less than
the window has passed since. A list of times that is kept by dropping what is no longer live loses
nothing that a later look would count. Items admitted one after the other are budgeted when each was
admitted while fewer than the limit of those before it counted against it; then any items of which
the earlier count against the later are no more than the limit.
-/
import Mathlib.Data.List.Forall2
import Mathlib.Data.List.Induction
import Mathlib.Data.List.Perm.Basic

namespace WebAccess.Window

/-! ## Live times -/

/-- Less than the window has passed. -/
def alive (window now t : Nat) : Bool := decide (now - t < window)

/-- The times that are live. -/
def live (window now : Nat) (ts : List Nat) : List Nat := ts.filter (alive window now)

/-- Times in the order they were taken, none of them in the future. -/
structure Past (now : Nat) (ts : List Nat) : Prop where
  sorted : ts.Pairwise (· ≤ ·)
  past : ∀ t ∈ ts, t ≤ now

section Live

variable {window now now' : Nat} {ts : List Nat}

theorem alive_of_le {t : Nat} (hle : now ≤ now') (h : alive window now' t = true) : alive window now t = true := by
  simp only [alive, decide_eq_true_eq] at h ⊢
  omega

/-- What is dropped is not missed later. -/
theorem live_live (hle : now ≤ now') : live window now' (live window now ts) = live window now' ts := by
  unfold live
  rw [List.filter_filter]
  refine List.filter_congr fun t _ => ?_
  cases h : alive window now' t with
  | false => rfl
  | true => rw [alive_of_le hle h]; rfl

theorem live_snoc_now (h : 0 < window) : live window now (ts ++ [now]) = live window now ts ++ [now] := by
  simp [live, alive, h]

/-- When the last time is not live, none is. -/
theorem live_eq_nil (h : Past now ts) (hlast : (ts.getLast?.any (alive window now)) = false) :
    live window now ts = [] := by
  rcases List.eq_nil_or_concat ts with rfl | ⟨init, z, rfl⟩
  · rfl
  · rw [List.concat_eq_append, List.getLast?_concat, Option.any_some] at hlast
    rw [List.concat_eq_append, live, List.filter_eq_nil_iff]
    intro t ht halive
    rw [List.concat_eq_append] at h
    have hle : t ≤ z := by
      rcases List.mem_append.1 ht with ht | ht
      · exact (List.pairwise_append.1 h.sorted).2.2 t ht z (by simp)
      · exact Nat.le_of_eq (List.mem_singleton.1 ht)
    have hz : alive window now z = true := by
      simp only [alive, decide_eq_true_eq] at halive ⊢
      omega
    rw [hz] at hlast
    cases hlast

theorem Past.nil : Past now [] := ⟨.nil, nofun⟩

theorem Past.sublist {us : List Nat} (h : Past now ts) (hsub : us.Sublist ts) : Past now us :=
  ⟨h.sorted.sublist hsub, fun t ht => h.past t (hsub.subset ht)⟩

theorem Past.later (h : Past now ts) (hle : now ≤ now') : Past now' ts :=
  ⟨h.sorted, fun t ht => Nat.le_trans (h.past t ht) hle⟩

theorem Past.snoc (h : Past now ts) : Past now (ts ++ [now]) := by
  refine ⟨List.pairwise_append.2 ⟨h.sorted, List.pairwise_singleton _ _, ?_⟩, fun t ht => ?_⟩
  · intro t ht z hz
    rw [List.mem_singleton.1 hz]
    exact h.past t ht
  · rcases List.mem_append.1 ht with ht | ht
    · exact h.past t ht
    · exact Nat.le_of_eq (List.mem_singleton.1 ht)

end Live

/-! ## Budgets -/

section Budget

variable {α : Type*} {mine : α → Bool} {counts : α → α → Bool} {limit : Nat}

/-- Each of one's own items was admitted while fewer than the limit of those before it counted against it. -/
def Budgeted (mine : α → Bool) (counts : α → α → Bool) (limit : Nat) (l : List α) : Prop :=
  ∀ before x after, l = before ++ x :: after → mine x = true → before.countP (counts x) < limit

theorem Budgeted.nil : Budgeted mine counts limit [] := by
  intro before x after h
  simp at h

/-- One more is admitted. -/
theorem Budgeted.snoc {l : List α} {x : α} (h : Budgeted mine counts limit l)
    (hx : mine x = true → l.countP (counts x) < limit) : Budgeted mine counts limit (l ++ [x]) := by
  intro before y after heq
  rcases List.eq_nil_or_concat after with rfl | ⟨after, z, rfl⟩
  · obtain ⟨rfl, hy⟩ := List.append_inj' heq rfl
    obtain rfl := List.singleton_inj.1 hy
    exact hx
  · rw [List.concat_eq_append, ← List.cons_append, ← List.append_assoc] at heq
    obtain ⟨rfl, -⟩ := List.append_inj' heq rfl
    exact h before y after rfl

/-- Own items of which each earlier counts against each later are no more than the limit. -/
theorem Budgeted.countP_le {l : List α} {p : α → Bool} (h : Budgeted mine counts limit l)
    (hmine : ∀ x ∈ l, p x = true → mine x = true)
    (hp : ∀ before x after, l = before ++ x :: after → p x = true → ∀ y ∈ before, p y = true → counts x y = true) :
    l.countP p ≤ limit := by
  induction l using List.reverseRecOn with
  | nil => exact Nat.zero_le _
  | append_singleton l x ih =>
    rw [List.countP_append]
    cases hx : p x with
    | false =>
      rw [List.countP_singleton, hx]
      refine ih ?_ (fun y hy => hmine y (List.mem_append_left _ hy)) ?_
      · rintro before y after rfl
        exact h before y (after ++ [x]) (by simp)
      · rintro before y after rfl
        exact hp before y (after ++ [x]) (by simp)
    | true =>
      have hle : l.countP p ≤ l.countP (counts x) := List.countP_mono_left (hp l x [] rfl hx)
      have hlast := h l x [] rfl (hmine x (by simp) hx)
      rw [List.countP_singleton, hx]
      exact Nat.lt_of_le_of_lt hle hlast

/-- One list is another in which some items have changed. -/
theorem forall₂_set {R : α → α → Prop} (hrefl : ∀ x, R x x) : ∀ {l : List α} {i : Nat} {a b : α}, l[i]? = some a →
    R a b → List.Forall₂ R l (l.set i b)
  | x :: l, 0, a, b, h, hab => by
    cases h
    exact .cons hab (List.forall₂_same.2 fun y _ => hrefl y)
  | x :: l, i + 1, a, b, h, hab => .cons (hrefl x) (forall₂_set hrefl (show l[i]? = some a from h) hab)

theorem countP_le_of_forall₂ {R : α → α → Prop} {p q : α → Bool} {l l' : List α} (h : List.Forall₂ R l l')
    (hpq : ∀ y y', R y y' → q y' = true → p y = true) : l'.countP q ≤ l.countP p := by
  induction h with
  | nil => exact Nat.le_refl _
  | @cons y y' l l' hy _ ih =>
    rw [List.countP_cons, List.countP_cons]
    have hone : (if q y' = true then 1 else 0) ≤ if p y = true then 1 else 0 := by
      split
      · simp [hpq y y' hy ‹_›]
      · exact Nat.zero_le _
    exact Nat.add_le_add ih hone

theorem split_of_forall₂ {R : α → α → Prop} {x' : α} {after' : List α} : ∀ {before' l : List α},
    List.Forall₂ R l (before' ++ x' :: after') →
    ∃ before x after, l = before ++ x :: after ∧ List.Forall₂ R before before' ∧ R x x'
  | [], l, h => by
    cases h with
    | cons hx _ => exact ⟨[], _, _, rfl, .nil, hx⟩
  | y' :: before', l, h => by
    cases h with
    | @cons y _ l _ hy hrest =>
      obtain ⟨before, x, after, rfl, hbefore, hx⟩ := split_of_forall₂ hrest
      exact ⟨y :: before, x, after, rfl, .cons hy hbefore, hx⟩

/-- A budget is kept while no item comes to count against more. -/
theorem Budgeted.changed {R : α → α → Prop} {l l' : List α} (h : Budgeted mine counts limit l)
    (hl : List.Forall₂ R l l') (hmine : ∀ x x', R x x' → mine x' = true → mine x = true)
    (hcounts : ∀ x x' y y', R x x' → R y y' → counts x' y' = true → counts x y = true) :
    Budgeted mine counts limit l' := by
  rintro before' x' after' rfl hx'
  obtain ⟨before, x, after, rfl, hbefore, hx⟩ := split_of_forall₂ hl
  refine Nat.lt_of_le_of_lt (countP_le_of_forall₂ hbefore fun y y' hy => hcounts x x' y y' hx hy) ?_
  exact h before x after rfl (hmine x x' hx hx')

end Budget

end WebAccess.Window
