/-
Labelled transition systems and their finite runs, over arbitrary states and labels. A run keeps
the whole history: one entry per step, with the state before and the state after it. The rules
are the ones the developments above it use: an invariant kept by every step holds at the end of
every run, a property of the history is proved by extending it one step at a time, a run may be
cut at any of its entries, and a run of an executable step function is a run of its relation.
-/
import Mathlib.Data.List.Basic
import Mathlib.Data.List.Infix

namespace WebAccess.Transition

variable {σ α : Type*}

/-- One step of a run: the state before, what happened, the state after. -/
structure Entry (σ α : Type*) where
  pre : σ
  label : α
  post : σ

/-- A step that needs a part of the state, and a condition on it. -/
theorem bind_ite_eq_some {o : Option α} {p : α → Prop} [∀ a, Decidable (p a)] {f : α → β} {b : β} :
    (o.bind fun a => if p a then some (f a) else none) = some b ↔ ∃ a, o = some a ∧ p a ∧ f a = b := by
  simp only [Option.bind_eq_some_iff, Option.ite_none_right_eq_some, Option.some.injEq]

theorem mem_snoc {a b : α} {l : List α} : a ∈ l ++ [b] ↔ a ∈ l ∨ a = b := by
  rw [List.mem_append, List.mem_singleton]

/-- The finite runs of a step relation from `s₀`, oldest entry first. -/
inductive Run (step : σ → α → σ → Prop) (s₀ : σ) : List (Entry σ α) → σ → Prop
  | nil : Run step s₀ [] s₀
  | snoc {tr : List (Entry σ α)} {s s' : σ} {l : α} :
      Run step s₀ tr s → step s l s' → Run step s₀ (tr ++ [⟨s, l, s'⟩]) s'

section Rules

variable {step : σ → α → σ → Prop} {s₀ s : σ} {tr : List (Entry σ α)}

/-- What holds at the start and is kept by every step holds at the end of every run. -/
@[elab_as_elim]
theorem Run.invariant {I : σ → Prop} (h : Run step s₀ tr s) (init : I s₀)
    (keep : ∀ s l s', I s → step s l s' → I s') : I s := by
  induction h with
  | nil => exact init
  | snoc _ hs ih => exact keep _ _ _ ih hs

/-- A property of the history and the state reached, proved by extending the history one entry
at a time. -/
@[elab_as_elim]
theorem Run.history {P : List (Entry σ α) → σ → Prop} (h : Run step s₀ tr s) (init : P [] s₀)
    (next : ∀ tr s l s', Run step s₀ tr s → P tr s → step s l s' → P (tr ++ [⟨s, l, s'⟩]) s') :
    P tr s := by
  induction h with
  | nil => exact init
  | snoc hr hs ih => exact next _ _ _ _ hr ih hs

theorem Run.step_of_mem {e : Entry σ α} (h : Run step s₀ tr s) (he : e ∈ tr) : step e.pre e.label e.post := by
  induction h with
  | nil => cases he
  | snoc _ hs ih =>
    rcases List.mem_append.1 he with he | he
    · exact ih he
    · obtain rfl := List.mem_singleton.1 he
      exact hs

/-- A run whose entries all satisfy `C` is a run of the steps that satisfy `C`. -/
theorem Run.restrict {C : Entry σ α → Prop} (h : Run step s₀ tr s) (hC : ∀ e ∈ tr, C e) :
    Run (fun s l s' => step s l s' ∧ C ⟨s, l, s'⟩) s₀ tr s := by
  induction h with
  | nil => exact .nil
  | snoc _ hs ih =>
    exact .snoc (ih fun e he => hC e (List.mem_append_left _ he)) ⟨hs, hC _ (by simp)⟩

theorem Run.mono {step' : σ → α → σ → Prop} (h : Run step s₀ tr s)
    (hstep : ∀ s l s', step s l s' → step' s l s') : Run step' s₀ tr s := by
  induction h with
  | nil => exact .nil
  | snoc _ hs ih => exact .snoc ih (hstep _ _ _ hs)

/-- What is kept by a step at its time, and stays when time passes, holds after a run whose timed steps are in
the order of their times, at every moment that none of them is later than. -/
theorem Run.inTurn {time : Entry σ α → Option Nat} {I : Nat → σ → Prop} {C : Entry σ α → Prop} (h : Run step s₀ tr s)
    (init : ∀ now, I now s₀) (later : ∀ s now now', I now s → now ≤ now' → I now' s)
    (keep : ∀ now s l s', I now s → step s l s' → time ⟨s, l, s'⟩ = none ∨ time ⟨s, l, s'⟩ = some now →
      C ⟨s, l, s'⟩ → I now s') :
    (tr.filterMap time).Pairwise (· ≤ ·) → (∀ e ∈ tr, C e) → ∀ now, (∀ t ∈ tr.filterMap time, t ≤ now) → I now s := by
  induction h with
  | nil => exact fun _ _ now _ => init now
  | @snoc tr s s' l _ hs ih =>
    intro hturn hC now hnow
    rw [List.filterMap_append] at hturn hnow
    obtain ⟨hbefore, -, hlast⟩ := List.pairwise_append.1 hturn
    have ih := ih hbefore fun e he => hC e (List.mem_append_left _ he)
    have hC := hC ⟨s, l, s'⟩ (by simp)
    cases htime : time ⟨s, l, s'⟩ with
    | none => exact keep now s l s' (ih now fun t ht => hnow t (List.mem_append_left _ ht)) hs (.inl htime) hC
    | some t =>
      -- The step is taken at its own time, which may be behind `now`.
      have ht : t ∈ [(⟨s, l, s'⟩ : Entry σ α)].filterMap time := by simp [htime]
      have hkept := keep t s l s' (ih t fun t' ht' => hlast t' ht' t ht) hs (.inr htime) hC
      exact later s' t now hkept (hnow t (List.mem_append_right _ ht))

/-- A run of which every step takes something from a measure is no longer than the measure was. -/
theorem Run.length_le {m : σ → Nat} (h : Run step s₀ tr s) (hless : ∀ e ∈ tr, m e.post < m e.pre) :
    tr.length + m s ≤ m s₀ := by
  induction h with
  | nil => simp
  | @snoc tr s s' l _ _ ih =>
    have hbefore := ih fun e he => hless e (List.mem_append_left _ he)
    have hlast : m s' < m s := hless ⟨s, l, s'⟩ (by simp)
    rw [List.length_append, List.length_singleton]
    omega

/-- Cutting a run in two: the first part is a run, and the second one continues from its end. -/
theorem Run.split {tr₁ tr₂ : List (Entry σ α)} (h : Run step s₀ (tr₁ ++ tr₂) s) :
    ∃ m, Run step s₀ tr₁ m ∧ Run step m tr₂ s := by
  generalize htr : tr₁ ++ tr₂ = tr at h
  induction h generalizing tr₂ with
  | nil =>
    obtain ⟨rfl, rfl⟩ := List.append_eq_nil_iff.1 htr
    exact ⟨s₀, .nil, .nil⟩
  | @snoc tr s s' l hr hs ih =>
    rcases List.eq_nil_or_concat tr₂ with rfl | ⟨init, last, rfl⟩
    · rw [List.append_nil] at htr
      exact ⟨s', htr ▸ .snoc hr hs, .nil⟩
    · rw [List.concat_eq_append, ← List.append_assoc] at htr
      obtain ⟨htr, hlast⟩ := List.append_inj' htr rfl
      obtain ⟨m, h₁, h₂⟩ := ih htr
      cases hlast
      exact ⟨m, h₁, by simpa using h₂.snoc hs⟩

theorem Run.append {m : σ} {tr₁ tr₂ : List (Entry σ α)} (h₁ : Run step s₀ tr₁ m)
    (h₂ : Run step m tr₂ s) : Run step s₀ (tr₁ ++ tr₂) s := by
  induction h₂ with
  | nil => simpa using h₁
  | snoc _ hs ih => rw [← List.append_assoc]; exact ih.snoc hs

theorem Run.of_snoc {e : Entry σ α} (h : Run step s₀ (tr ++ [e]) s) :
    Run step s₀ tr e.pre ∧ step e.pre e.label e.post ∧ e.post = s := by
  generalize htr : tr ++ [e] = tr' at h
  cases h with
  | nil => simp at htr
  | snoc hr hs =>
    obtain ⟨rfl, hlast⟩ := List.append_inj' htr rfl
    cases hlast
    exact ⟨hr, hs, rfl⟩

/-- The history up to an entry ends where the entry does, and the rest goes on from there. -/
theorem Run.after {tr₁ tr₂ : List (Entry σ α)} {e : Entry σ α} (h : Run step s₀ (tr₁ ++ e :: tr₂) s) :
    Run step s₀ (tr₁ ++ [e]) e.post ∧ Run step e.post tr₂ s := by
  rw [List.append_cons] at h
  obtain ⟨m, h₁, h₂⟩ := h.split
  obtain ⟨-, -, rfl⟩ := h₁.of_snoc
  exact ⟨h₁, h₂⟩

/-- The history before an entry is itself a run, and ends where the entry starts. -/
theorem Run.before {tr₁ tr₂ : List (Entry σ α)} {e : Entry σ α}
    (h : Run step s₀ (tr₁ ++ e :: tr₂) s) :
    Run step s₀ tr₁ e.pre ∧ step e.pre e.label e.post := by
  obtain ⟨hr, hs, -⟩ := h.after.1.of_snoc
  exact ⟨hr, hs⟩

/-- The run from the state a step is taken in. -/
theorem Run.onward {tr₁ tr₂ : List (Entry σ α)} {e : Entry σ α} (h : Run step s₀ (tr₁ ++ e :: tr₂) s) :
    Run step e.pre (e :: tr₂) s :=
  (Run.snoc .nil h.before.2).append h.after.2

theorem Run.exists_before {e : Entry σ α} (h : Run step s₀ tr s) (he : e ∈ tr) :
    ∃ tr₁ tr₂, tr = tr₁ ++ e :: tr₂ ∧ Run step s₀ tr₁ e.pre := by
  obtain ⟨tr₁, tr₂, rfl⟩ := List.append_of_mem he
  exact ⟨tr₁, tr₂, rfl, h.before.1⟩

end Rules

section Executable

/-- The history of an executable step function on a list of labels, as far as it goes. -/
def trace (f : σ → α → Option σ) : σ → List α → List (Entry σ α)
  | _, [] => []
  | s, l :: ls => match f s l with
    | none => []
    | some s' => ⟨s, l, s'⟩ :: trace f s' ls

/-- Where the labels lead, when every step of them is possible. -/
def exec (f : σ → α → Option σ) : σ → List α → Option σ
  | s, [] => some s
  | s, l :: ls => (f s l).bind fun s' => exec f s' ls

theorem run_trace {f : σ → α → Option σ} {step : σ → α → σ → Prop}
    (hf : ∀ s l s', f s l = some s' → step s l s') :
    ∀ {s s' : σ} {ls : List α}, exec f s ls = some s' → Run step s (trace f s ls) s'
  | s, s', [], h => by
    cases h
    exact .nil
  | s, s', l :: ls, h => by
    obtain ⟨m, hm, h⟩ := Option.bind_eq_some_iff.1 h
    have hone : Run step s ([] ++ [⟨s, l, m⟩]) m := .snoc .nil (hf _ _ _ hm)
    simp only [trace, hm]
    exact hone.append (run_trace hf h)

/-- Evaluating a script gives a run, and what it shows of the state reached. -/
theorem run_of_exec (f : σ → α → Option σ) (s : σ) (ls : List α) (P : σ → Bool)
    (h : (exec f s ls).any P = true) :
    ∃ s', Run (fun s l s' => f s l = some s') s (trace f s ls) s' ∧ P s' = true := by
  obtain ⟨s', hs', hP⟩ := (Option.any_eq_true ..).1 h
  exact ⟨s', run_trace (fun _ _ _ h => h) hs', hP⟩

theorem label_mem_of_trace {f : σ → α → Option σ} {e : Entry σ α} :
    ∀ {s : σ} {ls : List α}, e ∈ trace f s ls → e.label ∈ ls
  | _, [], h => by cases h
  | s, l :: ls, h => by
    unfold trace at h
    split at h
    · cases h
    · rcases List.mem_cons.1 h with rfl | h
      · exact List.mem_cons_self
      · exact List.mem_cons_of_mem _ (label_mem_of_trace h)

theorem exec_append {f : σ → α → Option σ} :
    ∀ {s : σ} {ls ls' : List α}, exec f s (ls ++ ls') = (exec f s ls).bind fun m => exec f m ls'
  | s, [], ls' => rfl
  | s, l :: ls, ls' => by
    simp only [List.cons_append, exec]
    cases f s l with
    | none => rfl
    | some m => exact exec_append

theorem exec_snoc {f : σ → α → Option σ} {s s' : σ} {ls : List α} {l : α} (h : exec f s (ls ++ [l]) = some s') :
    ∃ m, exec f s ls = some m ∧ f m l = some s' := by
  rw [exec_append, Option.bind_eq_some_iff] at h
  obtain ⟨m, hm, h⟩ := h
  refine ⟨m, hm, ?_⟩
  simpa [exec] using h

end Executable

end WebAccess.Transition
