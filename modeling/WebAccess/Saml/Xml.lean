/-
Parsed documents as `uppsala`'s `dom.rs` has them, as far as the SAML code reads them: a node has a
kind and children, a node id is the address of the node, and the ids of a document are walked by
`children`, `parent` and `descendants`. Left out are prefixes, namespace declarations, and positions in the
text, which nothing here looks at.
-/
import WebAccess.Lib.Forest
import WebAccess.Wire.Text

namespace WebAccess.Saml

open Forest Wire

/-- `QName`; the prefix is left out. -/
structure QName where
  namespaceUri : Option Text
  localName : Text

def QName.matches (q : QName) (namespaceUri : Option Text) (localName : Text) : Bool :=
  q.localName = localName && q.namespaceUri = namespaceUri

structure Attribute where
  name : QName
  value : Text

structure Element where
  name : QName
  attributes : List Attribute

def Element.matchesNameNs (e : Element) (namespaceUri localName : Text) : Bool :=
  e.name.matches (some namespaceUri) localName

/-- What has no children: the cases of `NodeKind` other than the document and an element. -/
inductive Content
  | text (t : Text)
  | cdata (t : Text)
  | comment (t : Text)
  | processingInstruction (target : Text) (data : Option Text)

abbrev Node := Tree Element Content

def asElement : Node → Option Element
  | .node e _ => some e
  | .leaf _ => none

/-- `NodeId`: the document node has the empty address. -/
abbrev NodeId := Address

/-- `Document`. The parser refuses a second element at the top ("Only one root element is allowed"). -/
structure Document where
  top : List Node
  oneRoot : (top.filter fun t => (asElement t).isSome).length ≤ 1

namespace Document

variable (doc : Document)

def node (id : NodeId) : Option Node := find doc.top id

def under : NodeId → List Node
  | [] => doc.top
  | i :: p => ((doc.node (i :: p)).map Tree.kids).getD []

def root (_ : Document) : NodeId := []

def element (id : NodeId) : Option Element := (doc.node id).bind asElement

def children (id : NodeId) : List NodeId := (List.range (doc.under id).length).map fun i => id ++ [i]

def parent (id : NodeId) : Option NodeId :=
  if id = [] ∨ (doc.node id).isNone then none else some id.dropLast

/-- `descendants`, in document order and without the node itself -/
def descendants (id : NodeId) : List NodeId := (addresses 0 (doc.under id)).map fun p => id ++ p

def documentElement : Option NodeId := (doc.children doc.root).find? fun c => (doc.element c).isSome

variable {doc}

/-! ## Where a node id leads -/

variable {p : Address} {c : NodeId} {i : Nat}

theorem node_append (id : NodeId) (hp : p ≠ []) : doc.node (id ++ p) = find (doc.under id) p := by
  cases id with
  | nil => rfl
  | cons i q =>
    cases p with
    | nil => exact absurd rfl hp
    | cons j p =>
      have hsplit : doc.node (i :: q ++ j :: p) = (doc.node (i :: q)).bind fun t => t.sub (j :: p) :=
        find_append doc.top (by simp) _
      rw [hsplit]
      cases h : doc.node (i :: q) with
      | none | some => simp [under, h]

variable {id : NodeId}

theorem mem_descendants {n : NodeId} : n ∈ doc.descendants id ↔ ∃ p, p ≠ [] ∧ n = id ++ p ∧ (doc.node n).isSome := by
  simp only [descendants, List.mem_map, mem_addresses_zero]
  constructor
  · rintro ⟨p, hp, rfl⟩
    have hne : p ≠ [] := by rintro rfl; simp at hp
    exact ⟨p, hne, rfl, by rwa [node_append id hne]⟩
  · rintro ⟨p, hne, rfl, hp⟩
    exact ⟨p, by rwa [node_append id hne] at hp, rfl⟩

theorem mem_children : c ∈ doc.children id ↔ ∃ i, c = id ++ [i] ∧ (doc.node c).isSome := by
  simp only [children, List.mem_map, List.mem_range]
  constructor
  · rintro ⟨i, hi, rfl⟩
    exact ⟨i, rfl, by simp [node_append, hi]⟩
  · rintro ⟨i, rfl, hi⟩
    refine ⟨i, ?_, rfl⟩
    by_contra hlt
    simp [node_append, List.getElem?_eq_none (Nat.le_of_not_lt hlt)] at hi

theorem parent_of_mem_children (h : c ∈ doc.children id) : doc.parent c = some id := by
  obtain ⟨i, rfl, hi⟩ := mem_children.1 h
  cases hn : doc.node (id ++ [i]) with
  | none => simp [hn] at hi
  | some t => simp [parent, hn]

theorem element_eq_some {e : Element} (h : doc.element id = some e) : (doc.node id).isSome := by
  cases hn : doc.node id with
  | none => simp [element, hn] at h
  | some t => rfl

/-! ## The document element -/

theorem place_unique {α : Type} {p : α → Bool} {l : List α} (h : (l.filter p).length ≤ 1) {j : Nat} {a b : α}
    (hi : l[i]? = some a) (hj : l[j]? = some b) (ha : p a = true) (hb : p b = true) : i = j := by
  induction l generalizing i j with
  | nil => simp at hi
  | cons x xs ih =>
    -- once the head is chosen nothing after it is
    have hlate : ∀ {k : Nat} {c : α}, p x = true → xs[k]? = some c → p c = true → False := by
      intro k c hx hk hc
      simp [hx] at h
      exact absurd (h c (List.mem_of_getElem? hk)) (by simp [hc])
    have hrest : (xs.filter p).length ≤ 1 := by
      refine Nat.le_trans ?_ h
      by_cases hx : p x <;> simp [hx]
    cases i with
    | zero =>
      cases j with
      | zero => rfl
      | succ j =>
        obtain rfl : x = a := by simpa using hi
        exact (hlate ha (by simpa using hj) hb).elim
    | succ i =>
      cases j with
      | zero =>
        obtain rfl : x = b := by simpa using hj
        exact (hlate hb (by simpa using hi) ha).elim
      | succ j => exact congrArg (· + 1) (ih hrest (by simpa using hi) (by simpa using hj))

theorem element_top (h : (doc.element (i :: p)).isSome) : ∃ t, doc.top[i]? = some t ∧ (asElement t).isSome := by
  cases ht : doc.top[i]? with
  | none => simp [element, node, ht] at h
  | some t =>
    refine ⟨t, rfl, ?_⟩
    cases t with
    | node e ts => rfl
    | leaf c =>
      cases p with
      | nil => simp [element, node, ht, asElement] at h
      | cons j q => simp [element, node, ht, Tree.kids] at h

theorem of_documentElement {root : NodeId} (h : doc.documentElement = some root) :
    root ∈ doc.children [] ∧ ∀ n, (doc.element n).isSome → n = root ∨ n ∈ doc.descendants root := by
  have hmem : root ∈ doc.children [] := List.mem_of_find?_eq_some h
  have hroot : (doc.element root).isSome := List.find?_some (p := fun c => (doc.element c).isSome) h
  refine ⟨hmem, fun n hn => ?_⟩
  obtain ⟨i, rfl, -⟩ := mem_children.1 hmem
  obtain ⟨e, he⟩ := Option.isSome_iff_exists.1 hn
  have hsome := element_eq_some he
  cases n with
  | nil => simp [node] at hsome
  | cons j q =>
    obtain ⟨t, ht, htop⟩ := element_top hroot
    obtain ⟨u, hu, hutop⟩ := element_top hn
    obtain rfl := place_unique doc.oneRoot ht hu htop hutop
    cases q with
    | nil => exact .inl rfl
    | cons k q => exact .inr (mem_descendants.2 ⟨k :: q, by simp, by simp, hsome⟩)

end Document

end WebAccess.Saml
