/-
How `saml.rs` reads a document: names, children, attributes, text and times, each with its refusal. What
is read at a node is decided by the tree at that node: reading two nodes that carry the same tree, in
whatever documents, gives the same.
-/
import WebAccess.Saml.Xml
import WebAccess.Saml.Values
import Mathlib.Data.List.Forall2

namespace WebAccess.Saml

open Forest Wire Document

/-- `SamlError`, without the case for metadata -/
inductive SamlError
  | refused (why : String)
  deriving DecidableEq

def refuse {α : Type} (why : String) : Except SamlError α := .error (.refused why)

/-- `if !c { return refuse(why) }` -/
def demand (c : Prop) [Decidable c] (why : String) : Except SamlError Unit := if c then .ok () else refuse why

theorem demand_ok {c : Prop} [Decidable c] {why : String} {u : Unit} : demand c why = .ok u ↔ c := by
  unfold demand refuse
  split <;> simp_all

/-! ## Reading a document -/

section

variable (doc : Document) (id : NodeId)

def is (ns name : Text) : Bool := (doc.element id).any fun e => e.matchesNameNs ns name

def childElements : List NodeId := (doc.children id).filter fun c => (doc.element c).isSome

def childrenNamed (ns name : Text) : List NodeId := (childElements doc id).filter fun c => is doc c ns name

def oneChild (ns name : Text) : Except SamlError (Option NodeId) := do
  let found := childrenNamed doc id ns name
  demand (found.length ≤ 1) ("more than one " ++ String.ofList name ++ " where one is allowed")
  pure found.head?

def requiredChild (ns name : Text) : Except SamlError NodeId := do
  match ← oneChild doc id ns name with
  | some c => pure c
  | none => refuse ("no " ++ String.ofList name ++ " element")

/-- `attr`: an attribute without a namespace -/
def attr (name : Text) : Option Text := do
  let e ← doc.element id
  let a ← e.attributes.find? fun a => a.name.namespaceUri.isNone && a.name.localName = name
  pure a.value

/-- What a child adds to the text of its parent. -/
def textPart : Option Node → Except SamlError Text
  | some (.leaf (.text t)) => .ok t
  | some (.leaf (.cdata t)) => .ok t
  | _ => refuse "an element holds more than text where text is expected"

def text : Except SamlError Text := do
  let parts ← (doc.children id).mapM fun c => textPart (doc.node c)
  pure (trim parts.flatten)

/-- `time_attr`; `debug` is how `{:?}` writes a string. -/
def timeAttr (debug : Text → String) (name : Text) : Except SamlError (Option Int) :=
  match attr doc id name with
  | none => .ok none
  | some v =>
    match parseInstant v with
    | some t => .ok (some t)
    | none => refuse (String.ofList name ++ " " ++ debug v ++ " is not a SAML time")

end

/-- Comments and processing instructions, which `plain` refuses. -/
def isRemark : Option Node → Bool
  | some (.leaf (.comment _)) => true
  | some (.leaf (.processingInstruction _ _)) => true
  | _ => false

def plain (doc : Document) : Except SamlError Unit :=
  demand (∀ n ∈ doc.descendants doc.root, ¬ isRemark (doc.node n))
    "the response carries comments or processing instructions"

/-! ## What a reading rests on -/

/-- Two nodes, of one document or of two, that carry the same tree. -/
def Alike (doc : Document) (id : NodeId) (doc' : Document) (id' : NodeId) : Prop :=
  (∃ t, doc.node id = some t) ∧ doc'.node id' = doc.node id

/-- Two computations of node ids that fail alike or find nodes that are alike. -/
inductive Agree {α β : Type} (R : α → β → Prop) : Except SamlError α → Except SamlError β → Prop
  | error (e : SamlError) : Agree R (.error e) (.error e)
  | ok {a : α} {b : β} (h : R a b) : Agree R (.ok a) (.ok b)

theorem Agree.bind {α β γ : Type} {R : α → β → Prop} {m : Except SamlError α} {m' : Except SamlError β}
    {f : α → Except SamlError γ} {f' : β → Except SamlError γ} (h : Agree R m m') (hf : ∀ a b, R a b → f a = f' b) :
    m >>= f = m' >>= f' := by
  cases h with
  | error e => rfl
  | ok h => exact hf _ _ h

theorem foldlM_alike {α β σ : Type} {R : α → β → Prop} {l : List α} {l' : List β} (h : List.Forall₂ R l l')
    {f : σ → α → Except SamlError σ} {f' : σ → β → Except SamlError σ} (hf : ∀ s a b, R a b → f s a = f' s b) (s : σ) :
    l.foldlM f s = l'.foldlM f' s := by
  induction h generalizing s with
  | nil => rfl
  | cons hab _ ih =>
    simp only [List.foldlM_cons, hf s _ _ hab]
    congr 1
    funext s
    exact ih s

theorem mapM_alike {α β γ : Type} {R : α → β → Prop} {l : List α} {l' : List β} (h : List.Forall₂ R l l')
    {f : α → Except SamlError γ} {f' : β → Except SamlError γ} (hf : ∀ a b, R a b → f a = f' b) :
    l.mapM f = l'.mapM f' := by
  induction h with
  | nil => rfl
  | cons hab _ ih => simp only [List.mapM_cons, hf _ _ hab, ih]

namespace Alike

variable {doc doc' : Document} {id id' : NodeId} (h : Alike doc id doc' id')

include h

theorem element : doc'.element id' = doc.element id := by
  simp only [Document.element, h.2]

theorem is (ns name : Text) : Saml.is doc' id' ns name = Saml.is doc id ns name := by
  simp only [Saml.is, h.element]

theorem attr (name : Text) : Saml.attr doc' id' name = Saml.attr doc id name := by
  simp only [Saml.attr, h.element]

theorem timeAttr (debug : Text → String) (name : Text) :
    Saml.timeAttr doc' id' debug name = Saml.timeAttr doc id debug name := by
  simp only [Saml.timeAttr, h.attr]

theorem under : doc'.under id' = doc.under id := by
  obtain ⟨⟨t, ht⟩, heq⟩ := h
  cases id with
  | nil => simp [node] at ht
  | cons i p =>
    cases id' with
    | nil =>
      rw [ht] at heq
      cases heq
    | cons j q => simp [Document.under, heq]

theorem children : List.Forall₂ (fun c c' => Alike doc c doc' c') (doc.children id) (doc'.children id') := by
  simp only [Document.children, h.under, List.forall₂_map_left_iff, List.forall₂_map_right_iff, List.forall₂_same,
    List.mem_range]
  intro i hi
  have hnode : doc.node (id ++ [i]) = (doc.under id)[i]? := by simp [node_append]
  have hnode' : doc'.node (id' ++ [i]) = (doc.under id)[i]? := by simp [node_append, h.under]
  exact ⟨⟨_, hnode.trans (List.getElem?_eq_getElem hi)⟩, hnode'.trans hnode.symm⟩

theorem childElements :
    List.Forall₂ (fun c c' => Alike doc c doc' c') (childElements doc id) (childElements doc' id') :=
  List.rel_filter (fun _ _ hc => by simp only [hc.element]) h.children

theorem childrenNamed (ns name : Text) :
    List.Forall₂ (fun c c' => Alike doc c doc' c') (childrenNamed doc id ns name) (childrenNamed doc' id' ns name) :=
  List.rel_filter (fun _ _ hc => by simp only [hc.is]) h.childElements

theorem text : Saml.text doc' id' = Saml.text doc id := by
  have hparts : (doc.children id).mapM (fun c => textPart (doc.node c)) =
      (doc'.children id').mapM fun c => textPart (doc'.node c) :=
    mapM_alike h.children fun _ _ hc => by rw [hc.2]
  simp only [Saml.text, hparts]

theorem oneChild (ns name : Text) :
    Agree (Option.Rel fun c c' => Alike doc c doc' c') (oneChild doc id ns name) (oneChild doc' id' ns name) := by
  have hnamed := h.childrenNamed ns name
  unfold Saml.oneChild demand
  generalize Saml.childrenNamed doc id ns name = found at hnamed
  generalize Saml.childrenNamed doc' id' ns name = found' at hnamed
  simp only [← hnamed.length_eq]
  split
  · refine .ok ?_
    cases hnamed with
    | nil => exact .none
    | cons hc _ => exact .some hc
  · exact .error _

theorem requiredChild (ns name : Text) :
    Agree (fun c c' => Alike doc c doc' c') (requiredChild doc id ns name) (requiredChild doc' id' ns name) := by
  have hone := h.oneChild ns name
  unfold Saml.requiredChild
  generalize Saml.oneChild doc id ns name = m at hone
  generalize Saml.oneChild doc' id' ns name = m' at hone
  cases hone with
  | error e => exact .error e
  | ok hc =>
    cases hc with
    | none => exact .error _
    | some hc => exact .ok hc

end Alike

end WebAccess.Saml
