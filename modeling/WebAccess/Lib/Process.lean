/-
Programs made of atomic calls, over an arbitrary signature of calls and answers, and the tasks
that run them. A program is a tree: it has returned, or it makes a call and goes on with whatever
it is answered. What other tasks do between two calls shows only in the answers, so a fact about
one program that holds for every answer holds under every interleaving.

Such facts are stated as protocols: an automaton over the calls made and their answers, with the
calls each of its states allows. `Prog.Obeys` is the weakest precondition of a program in a
protocol state, and its rules follow the program: `obeys_pure`, `obeys_call`, `obeys_bind`. Where
only the kind of the calls matters, `Prog.Makes` says so, and `obeys_of_makes` leads from there to
any protocol that such calls leave alone. A task keeps the calls it has made, so the protocol state
it is in can be read off it, and a task that started out obeying goes on doing so
(`Task.Obeys.step`).
-/
import Mathlib.Data.List.Basic

namespace WebAccess.Process

/-- The calls a program can make, and the type each is answered in. -/
structure Signature where
  Call : Type
  Answer : Call → Type

variable {F : Signature} {S α β : Type}

/-- A program: it has returned, or it makes a call and goes on with the answer. -/
inductive Prog (F : Signature) (α : Type)
  | ret (a : α)
  | call (c : F.Call) (next : F.Answer c → Prog F α)

/-- A call that was made, and its answer. -/
structure Event (F : Signature) where
  call : F.Call
  answer : F.Answer call

namespace Prog

def bind : Prog F α → (α → Prog F β) → Prog F β
  | ret a, f => f a
  | call c next, f => call c fun a => (next a).bind f

instance : Monad (Prog F) where
  pure := ret
  bind := bind

/-- One call, answered. -/
def perform (c : F.Call) : Prog F (F.Answer c) := call c ret

/-- What a program returned, once it has. -/
def result? : Prog F α → Option α
  | ret a => some a
  | call _ _ => none

/-- A program that runs alone: every call is answered at once, from the state the last one left. -/
def alone (answer : (c : F.Call) → S → F.Answer c × S) : Prog F α → S → α × S
  | ret a, s => (a, s)
  | call c next, s => (next (answer c s).1).alone answer (answer c s).2

section Alone

variable {answer : (c : F.Call) → S → F.Answer c × S} {s : S}

@[simp]
theorem alone_pure {a : α} : (pure a : Prog F α).alone answer s = (a, s) := rfl

@[simp]
theorem alone_perform {c : F.Call} : (perform c).alone answer s = answer c s := rfl

@[simp]
theorem alone_bind {p : Prog F α} {f : α → Prog F β} :
    (p >>= f).alone answer s = (f (p.alone answer s).1).alone answer (p.alone answer s).2 := by
  induction p generalizing s with
  | ret a => rfl
  | call c next ih => exact ih _

end Alone

end Prog

/-! ## Protocols -/

/-- An automaton over the calls made: which calls a state allows, and where an answered call
leads. -/
structure Protocol (F : Signature) where
  State : Type
  allows : State → F.Call → Prop
  next : State → Event F → State

/-- The state some calls lead to. -/
def Protocol.after (P : Protocol F) (q : P.State) (made : List (Event F)) : P.State := made.foldl P.next q

@[simp]
theorem Protocol.after_nil (P : Protocol F) (q : P.State) : P.after q [] = q := rfl

@[simp]
theorem Protocol.after_snoc (P : Protocol F) (q : P.State) (made : List (Event F)) (e : Event F) :
    P.after q (made ++ [e]) = P.next (P.after q made) e := by
  simp [after, List.foldl_append]

/-- From state `q` on, whatever it is answered, the program makes only calls that are allowed, and
returns only what `post` says. -/
def Prog.Obeys (P : Protocol F) (post : P.State → α → Prop) : Prog F α → P.State → Prop
  | ret a, q => post q a
  | call c next, q => P.allows q c ∧ ∀ a, (next a).Obeys P post (P.next q ⟨c, a⟩)

section Rules

variable {P : Protocol F} {q : P.State}

@[simp]
theorem obeys_pure {post : P.State → α → Prop} {a : α} : (pure a : Prog F α).Obeys P post q ↔ post q a := Iff.rfl

@[simp]
theorem obeys_bind {post : P.State → β → Prop} {p : Prog F α} {f : α → Prog F β} :
    (p >>= f).Obeys P post q ↔ p.Obeys P (fun q a => (f a).Obeys P post q) q := by
  induction p generalizing q with
  | ret a => exact Iff.rfl
  | call c next ih => exact and_congr_right fun _ => forall_congr' fun a => ih a

/-- A call and what is done with its answer. -/
theorem obeys_call {post : P.State → β → Prop} {c : F.Call} {f : F.Answer c → Prog F β} (hc : P.allows q c)
    (h : ∀ a, (f a).Obeys P post (P.next q ⟨c, a⟩)) : (Prog.perform c >>= f).Obeys P post q := ⟨hc, h⟩

theorem Prog.Obeys.mono {post post' : P.State → α → Prop} (hpost : ∀ q a, post q a → post' q a) :
    ∀ {p : Prog F α} {q : P.State}, p.Obeys P post q → p.Obeys P post' q
  | .ret _, _, h => hpost _ _ h
  | .call _ _, _, h => ⟨h.1, fun a => (h.2 a).mono hpost⟩

/-- A protocol that allows everything is obeyed. -/
theorem obeys_of_allows (h : ∀ q c, P.allows q c) : ∀ (p : Prog F α) (q : P.State), p.Obeys P (fun _ _ => True) q
  | .ret _, _ => trivial
  | .call c next, q => ⟨h q c, fun a => obeys_of_allows h (next a) _⟩

/-- Whatever it is answered, the program makes only calls of a kind. -/
def Prog.Makes (kind : F.Call → Prop) : Prog F α → Prop
  | ret _ => True
  | call c next => kind c ∧ ∀ a, (next a).Makes kind

section Makes

variable {kind kind' : F.Call → Prop}

theorem makes_call {c : F.Call} {f : F.Answer c → Prog F β} (hc : kind c) (h : ∀ a, (f a).Makes kind) :
    (Prog.perform c >>= f).Makes kind := ⟨hc, h⟩

theorem Prog.Makes.bind {p : Prog F α} {f : α → Prog F β} (hp : p.Makes kind) (hf : ∀ a, (f a).Makes kind) :
    (p >>= f).Makes kind := by
  induction p with
  | ret a => exact hf a
  | call c next ih => exact ⟨hp.1, fun a => ih a (hp.2 a)⟩

theorem Prog.Makes.mono (hkind : ∀ c, kind c → kind' c) : ∀ {p : Prog F α}, p.Makes kind → p.Makes kind'
  | .ret _, _ => trivial
  | .call _ _, h => ⟨hkind _ h.1, fun a => (h.2 a).mono hkind⟩

/-- A program whose calls all keep a property of the protocol state keeps it. -/
theorem obeys_of_makes {I : P.State → Prop}
    (hI : ∀ q c, I q → kind c → P.allows q c ∧ ∀ a, I (P.next q ⟨c, a⟩)) :
    ∀ {p : Prog F α} {q : P.State}, p.Makes kind → I q → p.Obeys P (fun q _ => I q) q
  | .ret _, _, _, hq => hq
  | .call _ _, _, h, hq =>
    have hc := hI _ _ hq h.1
    ⟨hc.1, fun a => obeys_of_makes hI (h.2 a) (hc.2 a)⟩

end Makes

end Rules

/-- The protocol that forgets nothing: what it allows depends on all the calls made. -/
abbrev Protocol.logging (allows : List (Event F) → F.Call → Prop) : Protocol F :=
  ⟨List (Event F), allows, fun made e => made ++ [e]⟩

@[simp]
theorem Protocol.after_logging {allows : List (Event F) → F.Call → Prop} (q made : List (Event F)) :
    (logging allows).after q made = q ++ made := by
  induction made generalizing q with
  | nil => simp
  | cons e made ih => exact (ih (q ++ [e])).trans (by simp)

/-- What is known of the calls made stays known, so who knows enough obeys whatever comes. -/
theorem obeys_logging {allows : List (Event F) → F.Call → Prop} {K : List (Event F) → Prop}
    (hK : ∀ made e, K made → K (made ++ [e])) (hallows : ∀ made c, K made → allows made c) :
    ∀ (p : Prog F α) {made : List (Event F)}, K made → p.Obeys (.logging allows) (fun made _ => K made) made
  | .ret _, _, h => h
  | .call c next, made, h => ⟨hallows made c h, fun a => obeys_logging hK hallows (next a) (hK _ _ h)⟩

/-! ## Tasks -/

/-- A program being run: the calls it has made, oldest first, and what is left of it. -/
structure Task (F : Signature) (α : Type) where
  made : List (Event F) := []
  prog : Prog F α

namespace Task

/-- The next call of a task, if the shared state answers it. -/
def step (answer : (c : F.Call) → S → Option (F.Answer c × S)) (t : Task F α) (s : S) :
    Option (Event F × Task F α × S) :=
  match t.prog with
  | .ret _ => none
  | .call c next => (answer c s).map fun r => (⟨c, r.1⟩, ⟨t.made ++ [⟨c, r.1⟩], next r.1⟩, r.2)

/-- The task obeys the protocol from the state its calls have led to. -/
def Obeys (P : Protocol F) (q₀ : P.State) (post : P.State → α → Prop) (t : Task F α) : Prop :=
  t.prog.Obeys P post (P.after q₀ t.made)

variable {answer : (c : F.Call) → S → Option (F.Answer c × S)} {t t' : Task F α} {s s' : S} {e : Event F}

theorem step_eq_some (h : t.step answer s = some (e, t', s')) :
    answer e.call s = some (e.answer, s') ∧ t'.made = t.made ++ [e] := by
  unfold step at h
  split at h
  · cases h
  · obtain ⟨r, hr, h⟩ := Option.map_eq_some_iff.1 h
    cases h
    exact ⟨hr, rfl⟩

/-- What was left of a task that makes a call, and what is left of it then. -/
theorem prog_of_step (h : t.step answer s = some (e, t', s')) :
    ∃ next, t.prog = .call e.call next ∧ t'.prog = next e.answer := by
  unfold step at h
  split at h
  · cases h
  · rename_i c next hprog
    obtain ⟨r, hr, h⟩ := Option.map_eq_some_iff.1 h
    cases h
    exact ⟨next, hprog, rfl⟩

/-- A task that makes a call has not returned. -/
theorem result_of_step (h : t.step answer s = some (e, t', s')) : t.prog.result? = none := by
  unfold step at h
  split at h
  · cases h
  · rename_i hprog
    rw [hprog]
    rfl

/-- The calls of a task are of the kind its program makes. -/
theorem step_makes {kind : F.Call → Prop} (ht : t.prog.Makes kind) (h : t.step answer s = some (e, t', s')) :
    kind e.call ∧ t'.prog.Makes kind := by
  unfold step at h
  split at h
  · cases h
  · rename_i c next hprog
    obtain ⟨r, hr, h⟩ := Option.map_eq_some_iff.1 h
    rw [hprog] at ht
    cases h
    exact ⟨ht.1, ht.2 r.1⟩

/-- A step of a task that obeys is a call the protocol allows, and the task goes on obeying. -/
theorem Obeys.step {P : Protocol F} {q₀ : P.State} {post : P.State → α → Prop} (ht : t.Obeys P q₀ post)
    (h : t.step answer s = some (e, t', s')) :
    P.allows (P.after q₀ t.made) e.call ∧ P.after q₀ t'.made = P.next (P.after q₀ t.made) e ∧ t'.Obeys P q₀ post := by
  unfold Task.step at h
  unfold Obeys at ht
  split at h
  · cases h
  · rename_i c next hprog
    obtain ⟨r, hr, h⟩ := Option.map_eq_some_iff.1 h
    rw [hprog] at ht
    cases h
    refine ⟨ht.1, by simp, ?_⟩
    unfold Obeys
    simpa using ht.2 _

/-- A task that obeys has returned only what the protocol lets it. -/
theorem Obeys.result {P : Protocol F} {q₀ : P.State} {post : P.State → α → Prop} {a : α} (ht : t.Obeys P q₀ post)
    (h : t.prog.result? = some a) : post (P.after q₀ t.made) a := by
  unfold Obeys at ht
  cases hprog : t.prog with
  | ret b =>
    rw [hprog] at h ht
    cases h
    exact ht
  | call c next =>
    rw [hprog] at h
    cases h

end Task

end WebAccess.Process
