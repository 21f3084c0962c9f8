/-
Ordered forests of inner nodes and leaves, and their trees by address: the address of a tree is the way to
it from the top, one place among siblings per level. The addresses in a forest are listed in document order,
and they are those that lead somewhere.
-/
import Mathlib.Data.List.Basic

namespace WebAccess.Forest

/-- A tree of inner nodes, with their children in order, and leaves; each carries a label of its own type. -/
inductive Tree (α β : Type)
  | node (label : α) (kids : List (Tree α β))
  | leaf (label : β)

/-- The place of a node: which child to take at each level. -/
abbrev Address := List Nat

variable {α β : Type}

namespace Tree

def kids : Tree α β → List (Tree α β)
  | node _ ts => ts
  | leaf _ => []

/-- The tree at an address within a tree; the tree itself is at the empty one. -/
def sub : Tree α β → Address → Option (Tree α β)
  | t, [] => some t
  | t, i :: p => t.kids[i]?.bind fun k => k.sub p

@[simp] theorem sub_nil (t : Tree α β) : t.sub [] = some t := rfl

@[simp] theorem sub_cons (t : Tree α β) (i : Nat) (p : Address) :
    t.sub (i :: p) = t.kids[i]?.bind fun k => k.sub p := rfl

theorem sub_append (t : Tree α β) (p q : Address) : t.sub (p ++ q) = (t.sub p).bind fun k => k.sub q := by
  induction p generalizing t with
  | nil => rfl
  | cons i p ih =>
    simp only [List.cons_append, sub_cons, Option.bind_assoc]
    congr 1
    funext k
    exact ih k

end Tree

/-- The tree at an address in a forest; the empty address is that of the forest, not of a tree. -/
def find (ts : List (Tree α β)) : Address → Option (Tree α β)
  | [] => none
  | i :: p => ts[i]?.bind fun t => t.sub p

@[simp] theorem find_nil (ts : List (Tree α β)) : find ts [] = none := rfl

@[simp] theorem find_cons (ts : List (Tree α β)) (i : Nat) (p : Address) :
    find ts (i :: p) = ts[i]?.bind fun t => t.sub p := rfl

theorem find_append (ts : List (Tree α β)) {p : Address} (hp : p ≠ []) (q : Address) :
    find ts (p ++ q) = (find ts p).bind fun t => t.sub q := by
  cases p with
  | nil => exact absurd rfl hp
  | cons i p => simp [Tree.sub_append, Option.bind_assoc]

/-! ## The addresses under a node -/

mutual

/-- The addresses within a tree in document order, without its own. -/
def below : Tree α β → List Address
  | .node _ ts => addresses 0 ts
  | .leaf _ => []

/-- The addresses within a forest whose first tree has number `n`. -/
def addresses : Nat → List (Tree α β) → List Address
  | _, [] => []
  | n, t :: ts => ([n] :: (below t).map (n :: ·)) ++ addresses (n + 1) ts

end

mutual

theorem mem_below (t : Tree α β) (p : Address) : p ∈ below t ↔ p ≠ [] ∧ (t.sub p).isSome := by
  cases t with
  | node a ts =>
    rw [below, mem_addresses 0 ts p]
    cases p with
    | nil => simp
    | cons i q => simp [Tree.kids]
  | leaf b =>
    cases p with
    | nil => simp [below]
    | cons i q => simp [below, Tree.kids]

theorem mem_addresses (n : Nat) (ts : List (Tree α β)) (p : Address) :
    p ∈ addresses n ts ↔ ∃ i q, p = (n + i) :: q ∧ (ts[i]?.bind fun t => t.sub q).isSome := by
  cases ts with
  | nil => simp [addresses]
  | cons t ts =>
    have hhead := mem_below t
    have htail := mem_addresses (n + 1) ts p
    simp only [addresses, List.cons_append, List.mem_cons, List.mem_append, List.mem_map, htail]
    constructor
    · rintro (rfl | ⟨q, hq, rfl⟩ | ⟨i, q, rfl, hq⟩)
      · exact ⟨0, [], by simp, by simp⟩
      · exact ⟨0, q, by simp, by simpa using ((hhead q).1 hq).2⟩
      · exact ⟨i + 1, q, by simp; omega, by simpa using hq⟩
    · rintro ⟨i, q, rfl, hq⟩
      cases i with
      | zero =>
        cases q with
        | nil => exact .inl (by simp)
        | cons j q => exact .inr (.inl ⟨j :: q, (hhead _).2 ⟨by simp, by simpa using hq⟩, by simp⟩)
      | succ i => exact .inr (.inr ⟨i, q, by simp; omega, by simpa using hq⟩)

end

theorem mem_addresses_zero (ts : List (Tree α β)) (p : Address) : p ∈ addresses 0 ts ↔ (find ts p).isSome := by
  rw [mem_addresses]
  cases p with
  | nil | cons => simp

end WebAccess.Forest
