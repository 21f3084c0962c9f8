/-
What it means that a response was accepted, against signature wrapping: the document has one assertion, it
is a child of the response, a signature of the one accepted form that covers exactly it was verified under
a pinned certificate, no other signature stands elsewhere or covers anything but its own parent, and all
that is acted on is read within the assertion.

The signature library is not part of the development. What it is trusted for is `Libraries.Sound`: what it
calls valid was signed by the key, and a digest it has verified is that of the node it says it resolved.
-/
import WebAccess.Saml.Provider

namespace WebAccess.Saml

open Wire Codec Document

/-! ## Loops of checks -/

section Loops

variable {α σ : Type} {l : List α}

theorem forall_of_forM {f : α → Except SamlError Unit} (h : l.forM f = .ok ()) : ∀ a ∈ l, f a = .ok () := by
  induction l with
  | nil => simp
  | cons a l ih =>
    obtain ⟨⟨⟩, ha, hl⟩ := bind_ok h
    intro b hb
    rcases List.mem_cons.1 hb with rfl | hb
    · exact ha
    · exact ih hl b hb

theorem of_mapError {ε : Type} {f : ε → SamlError} {m : Except ε α} {a : α} (h : m.mapError f = .ok a) : m = .ok a := by
  cases m with
  | error e => cases h
  | ok b => exact congrArg _ (Except.ok.inj h)

theorem foldlM_keeps {f : σ → α → Except SamlError σ} {P : σ → Prop} {s s' : σ} (h : l.foldlM f s = .ok s') (hs : P s)
    (hf : ∀ s a s', a ∈ l → P s → f s a = .ok s' → P s') : P s' := by
  induction l generalizing s with
  | nil =>
    cases h
    exact hs
  | cons a l ih =>
    rw [List.foldlM_cons] at h
    obtain ⟨m, ha, hl⟩ := bind_ok h
    exact ih hl (hf s a m List.mem_cons_self hs ha) fun s b s' hb => hf s b s' (List.mem_cons_of_mem _ hb)

end Loops

/-! ## The accepted form of a signature -/

variable {doc : Document}

variable {id : NodeId} {ns ns' : Text}

variable {a b name : Text} {l : List NodeId} {root : NodeId}

theorem is_inj (ha : is doc id ns a = true) (hb : is doc id ns' b = true) : a = b := by
  unfold is at ha hb
  cases he : doc.element id with
  | none => simp [he] at ha
  | some e =>
    simp only [he, Option.any_some, Element.matchesNameNs, QName.matches, Bool.and_eq_true, decide_eq_true_eq] at ha hb
    exact ha.1.symm.trans hb.1

theorem is_other (ha : is doc id ns a = true) (hne : a ≠ b) : is doc id ns' b = false := by
  cases hb : is doc id ns' b with
  | false => rfl
  | true => exact absurd (is_inj ha hb) hne

/-- What the loop over `SignedInfo` allows. -/
def IsInfoPart (doc : Document) (c : NodeId) : Prop :=
  is doc c nsDsig "CanonicalizationMethod" ∧ algorithm doc c = excC14n ∨
    is doc c nsDsig "SignatureMethod" ∧ algorithm doc c ∈ signatureMethods ∨ is doc c nsDsig "Reference"

/-- What the loop over the reference allows. -/
def IsReferencePart (doc : Document) (c : NodeId) : Prop :=
  is doc c nsDsig "Transforms" ∨ is doc c nsDsig "DigestMethod" ∧ algorithm doc c ∈ digestMethods ∨
    is doc c nsDsig "DigestValue"

/-- The form of a signature, by the parts it has: `info` is its `SignedInfo`, `reference` the one reference in
that, and `first` and `second` are the two steps of its transforms. -/
structure ShapeOf (doc : Document) (sig info reference transforms first second : NodeId) : Prop where
  parts : ∀ c ∈ childElements doc sig, is doc c nsDsig "SignedInfo" ∨
    is doc c nsDsig "SignatureValue" ∨ is doc c nsDsig "KeyInfo"
  oneInfo : childrenNamed doc sig nsDsig "SignedInfo" = [info]
  infoParts : ∀ c ∈ childElements doc info, IsInfoPart doc c
  oneC14n : (childrenNamed doc info nsDsig "CanonicalizationMethod").length = 1
  oneMethod : (childrenNamed doc info nsDsig "SignatureMethod").length = 1
  oneReference : childrenNamed doc info nsDsig "Reference" = [reference]
  uri : ∃ id, attr doc reference "URI" = some ('#' :: id) ∧ id ≠ [] ∧ id.all isIdChar
  referenceParts : ∀ c ∈ childElements doc reference, IsReferencePart doc c
  oneTransforms : childrenNamed doc reference nsDsig "Transforms" = [transforms]
  oneDigest : (childrenNamed doc reference nsDsig "DigestMethod").length = 1
  oneValue : (childrenNamed doc reference nsDsig "DigestValue").length = 1
  steps : childElements doc transforms = [first, second]
  envelopedStep : is doc first nsDsig "Transform" ∧ algorithm doc first = enveloped ∧
    childElements doc first = []
  exclusiveStep : is doc second nsDsig "Transform" ∧ algorithm doc second = excC14n

/-- The one form of a signature that is accepted. -/
def AcceptedShape (doc : Document) (sig : NodeId) : Prop :=
  ∃ info reference transforms first second, ShapeOf doc sig info reference transforms first second

def named (doc : Document) (l : List NodeId) (name : String) : List NodeId :=
  l.filter fun c => is doc c nsDsig name.toList

section Named

variable {c : NodeId} {l : List NodeId} {name : String}

theorem named_pos (h : is doc c nsDsig name.toList = true) : named doc (c :: l) name = c :: named doc l name :=
  List.filter_cons_of_pos (p := fun c => is doc c nsDsig name.toList) h

theorem add_length_named (h : is doc c nsDsig name.toList = true) (n : Nat) :
    n + (named doc (c :: l) name).length = n + 1 + (named doc l name).length := by
  rw [named_pos h, List.length_cons]
  omega

theorem named_other (h : is doc c nsDsig a = true) (hne : a ≠ name.toList) :
    named doc (c :: l) name = named doc l name :=
  List.filter_cons_of_neg (p := fun c => is doc c nsDsig name.toList) (Bool.eq_false_iff.1 (is_other h hne))

end Named

theorem infoParts_ok {p p' : InfoParts} (h : l.foldlM (infoPart doc) p = .ok p') :
    p'.c14n = p.c14n + (named doc l "CanonicalizationMethod").length ∧
    p'.method = p.method + (named doc l "SignatureMethod").length ∧
    p'.references = p.references ++ named doc l "Reference" ∧
    ∀ c ∈ l, IsInfoPart doc c := by
  induction l generalizing p with
  | nil =>
    cases h
    simp [named]
  | cons c l ih =>
    rw [List.foldlM_cons] at h
    obtain ⟨m, hm, h⟩ := bind_ok h
    obtain ⟨hc14n, hmethod, hreferences, hparts⟩ := ih h
    unfold infoPart at hm
    split at hm
    · rename_i hc
      simp only [Bool.and_eq_true, decide_eq_true_eq] at hc
      cases hm
      refine ⟨?_, ?_, ?_, List.forall_mem_cons.2 ⟨.inl hc, hparts⟩⟩
      · rw [add_length_named hc.1, hc14n]
      · rw [named_other hc.1 (by simp), hmethod]
      · rw [named_other hc.1 (by simp), hreferences]
    · split at hm
      · rename_i hc
        simp only [Bool.and_eq_true, decide_eq_true_eq] at hc
        cases hm
        refine ⟨?_, ?_, ?_, List.forall_mem_cons.2 ⟨.inr (.inl hc.1), hparts⟩⟩
        · rw [named_other hc.1.1 (by simp), hc14n]
        · rw [add_length_named hc.1.1, hmethod]
        · rw [named_other hc.1.1 (by simp), hreferences]
      · split at hm
        · rename_i hc
          cases hm
          refine ⟨?_, ?_, ?_, List.forall_mem_cons.2 ⟨.inr (.inr hc), hparts⟩⟩
          · rw [named_other hc (by simp), hc14n]
          · rw [named_other hc (by simp), hmethod]
          · rw [named_pos hc, hreferences, List.append_assoc, List.singleton_append]
        · cases hm

theorem referenceParts_ok {p p' : ReferenceParts} (h : l.foldlM (referencePart doc) p = .ok p') :
    p'.digest = p.digest + (named doc l "DigestMethod").length ∧
    p'.value = p.value + (named doc l "DigestValue").length ∧
    p'.transforms.toList = p.transforms.toList ++ named doc l "Transforms" ∧
    ∀ c ∈ l, IsReferencePart doc c := by
  induction l generalizing p with
  | nil =>
    cases h
    simp [named]
  | cons c l ih =>
    rw [List.foldlM_cons] at h
    obtain ⟨m, hm, h⟩ := bind_ok h
    obtain ⟨hdigest, hvalue, htransforms, hparts⟩ := ih h
    unfold referencePart at hm
    split at hm
    · rename_i hc
      simp only [Bool.and_eq_true, Option.isNone_iff_eq_none] at hc
      cases hm
      refine ⟨?_, ?_, ?_, List.forall_mem_cons.2 ⟨.inl hc.1, hparts⟩⟩
      · rw [named_other hc.1 (by simp), hdigest]
      · rw [named_other hc.1 (by simp), hvalue]
      · rw [named_pos hc.1, htransforms, hc.2]
        rfl
    · split at hm
      · rename_i hc
        simp only [Bool.and_eq_true, decide_eq_true_eq] at hc
        cases hm
        refine ⟨?_, ?_, ?_, List.forall_mem_cons.2 ⟨.inr (.inl hc.1), hparts⟩⟩
        · rw [add_length_named hc.1.1, hdigest]
        · rw [named_other hc.1.1 (by simp), hvalue]
        · rw [named_other hc.1.1 (by simp), htransforms]
      · split at hm
        · rename_i hc
          cases hm
          refine ⟨?_, ?_, ?_, List.forall_mem_cons.2 ⟨.inr (.inr hc), hparts⟩⟩
          · rw [named_other hc (by simp), hdigest]
          · rw [add_length_named hc, hvalue]
          · rw [named_other hc (by simp), htransforms]
        · cases hm

theorem requiredChild_ok {c : NodeId} (h : requiredChild doc id ns name = .ok c) :
    childrenNamed doc id ns name = [c] := by
  obtain ⟨found, hfound, h⟩ := bind_ok h
  obtain ⟨⟨⟩, hlength, hhead⟩ := bind_ok hfound
  have hlength := demand_ok.1 hlength
  cases hhead
  match hnamed : childrenNamed doc id ns name with
  | [] =>
    simp only [hnamed, List.head?_nil] at h
    cases h
  | [d] =>
    simp only [hnamed, List.head?_cons] at h
    cases h
    rfl
  | _ :: _ :: _ => simp [hnamed] at hlength

theorem reference_uri {uri : Option Text} (h : (stripFirst '#' (uri.getD [])).getD [] ≠ [] ∧
    ((stripFirst '#' (uri.getD [])).getD []).all isIdChar) :
    ∃ id, uri = some ('#' :: id) ∧ id ≠ [] ∧ id.all isIdChar := by
  cases uri with
  | none => simp [stripFirst] at h
  | some u =>
    cases u with
    | nil => simp [stripFirst] at h
    | cons c id =>
      by_cases hc : c = '#'
      · subst hc
        exact ⟨id, rfl, by simpa [stripFirst] using h⟩
      · simp [stripFirst, hc] at h

theorem acceptedShape_of_ok {sig : NodeId} (h : checkSignatureShape doc sig = .ok ()) : AcceptedShape doc sig := by
  obtain ⟨⟨⟩, hparts, h⟩ := bind_ok h
  obtain ⟨info, hinfo, h⟩ := bind_ok h
  obtain ⟨parts, hloop, h⟩ := bind_ok h
  obtain ⟨hc14n, hmethod, hreferences, hinfoParts⟩ := infoParts_ok hloop
  split at h
  case h_2 => cases h
  rename_i reference hreference
  obtain ⟨⟨⟩, hcounts, h⟩ := bind_ok h
  obtain ⟨⟨⟩, htarget, h⟩ := bind_ok h
  obtain ⟨found, hloop', h⟩ := bind_ok h
  obtain ⟨hdigest, hvalue, htransforms, hreferenceParts⟩ := referenceParts_ok hloop'
  split at h
  case h_2 => cases h
  rename_i transforms hfound
  split at h
  case h_2 => cases h
  rename_i first second hsteps
  obtain ⟨hfirst, hbare, hsecond, hdigest₁, hvalue₁⟩ := demand_ok.1 h
  obtain ⟨hc14n₁, hmethod₁⟩ := demand_ok.1 hcounts
  simp only [transformOk, Bool.and_eq_true, decide_eq_true_eq] at hfirst hsecond
  refine ⟨info, reference, transforms, first, second, ?_⟩
  exact {
    parts := demand_ok.1 hparts
    oneInfo := requiredChild_ok hinfo
    infoParts := hinfoParts
    oneC14n := (Nat.zero_add _).symm.trans (hc14n.symm.trans hc14n₁)
    oneMethod := (Nat.zero_add _).symm.trans (hmethod.symm.trans hmethod₁)
    oneReference := hreferences.symm.trans hreference
    uri := reference_uri (demand_ok.1 htarget)
    referenceParts := hreferenceParts
    oneTransforms := htransforms.symm.trans (by rw [hfound]; rfl)
    oneDigest := (Nat.zero_add _).symm.trans (hdigest.symm.trans hdigest₁)
    oneValue := (Nat.zero_add _).symm.trans (hvalue.symm.trans hvalue₁)
    steps := hsteps
    envelopedStep := ⟨hfirst.1, hfirst.2, List.isEmpty_iff.1 hbare⟩
    exclusiveStep := hsecond }

/-! ## What the signature library vouches for -/

section Vouching

variable {Key : Type} (lib : Libraries Key) (sp : ServiceProvider) (Signed : Key → Document → NodeId → Prop)
  (Matches : Document → NodeId → NodeId → Prop)

/-- The library calls a signature valid only when the key signed its `SignedInfo`, and says that a digest was
verified only when it matches the canonical form of the node it says it resolved. `Signed key doc sig` is that the
holder of the key signed the `SignedInfo` of `sig`; `Matches doc sig target`, that a digest in it is that of
`target`. -/
structure Libraries.Sound : Prop where
  signed : ∀ {key doc results sig references}, lib.verifyAll key doc = .ok results →
    VerifyResult.valid sig references ∈ results → Signed key doc sig
  digests : ∀ {key doc results sig references}, lib.verifyAll key doc = .ok results →
    VerifyResult.valid sig references ∈ results →
      ∀ r ∈ references, r.digestVerified = true → ∀ target ∈ r.resolvedNode, Matches doc sig target

/-- A signature with one reference, which resolves to `target`, verified under a pinned certificate. -/
def Covers (doc : Document) (sig target : NodeId) : Prop :=
  ∃ cert ∈ sp.idp.certs, ∃ key results reference, lib.loadCert cert = .ok key ∧ lib.verifyAll key doc = .ok results ∧
    VerifyResult.valid sig [reference] ∈ results ∧ reference.resolvedNode = some target ∧
    Signed key doc sig ∧ Matches doc sig target

variable {lib sp Signed Matches} {sigs : List NodeId} {root assertion : NodeId}

abbrev CoversParent (lib : Libraries Key) (sp : ServiceProvider) (Signed : Key → Document → NodeId → Prop)
    (Matches : Document → NodeId → NodeId → Prop) (doc : Document) (sigs : List NodeId) (i : Nat) : Prop :=
  ∀ target ∈ doc.parent (sigs.getD i []), Covers lib sp Signed Matches doc (sigs.getD i []) target

/-- What is noted of the signatures is so: one that is noted as valid covers its parent, and the assertion is noted
as covered only when it is the parent of one that does. -/
structure Justified (lib : Libraries Key) (sp : ServiceProvider) (Signed : Key → Document → NodeId → Prop)
    (Matches : Document → NodeId → NodeId → Prop) (doc : Document) (sigs : List NodeId) (assertion : NodeId)
    (v : Verdicts) : Prop where
  length : v.valid.length = sigs.length
  valid : ∀ i, v.valid[i]? = some true → CoversParent lib sp Signed Matches doc sigs i
  covers : v.coversAssertion = true → ∃ i < sigs.length, doc.parent (sigs.getD i []) = some assertion

variable {cert : Bytes} {v : Verdicts}

theorem Justified.judge {key : Key} {results : List VerifyResult} {r : VerifyResult} {i : Nat}
    (sound : lib.Sound Signed Matches) (hcert : cert ∈ sp.idp.certs) (hkey : lib.loadCert cert = .ok key)
    (hresults : lib.verifyAll key doc = .ok results) (hr : r ∈ results) (hi : i < sigs.length)
    (h : Justified lib sp Signed Matches doc sigs assertion v) :
    Justified lib sp Signed Matches doc sigs assertion (judge doc sigs assertion v r i) := by
  cases r with
  | invalid why => exact h
  | valid sig references =>
    unfold Saml.judge
    simp only
    split
    · exact h
    · rename_i hvalid
      simp only [not_or, not_not] at hvalid
      obtain ⟨rfl, hdigests⟩ := hvalid
      split
      case h_2 => exact h
      rename_i reference
      split
      · exact h
      · rename_i hresolved
        have hverified : reference.digestVerified = true := by
          simpa [VerifyResult.allReferenceDigestsVerified] using hdigests
        refine ⟨by simp [h.length], fun j hj => ?_, fun hcovers => ?_⟩
        · by_cases hij : i = j
          · subst hij
            intro target htarget
            have hreference : reference.resolvedNode = some target := (not_not.1 hresolved).trans htarget
            exact ⟨cert, hcert, key, results, reference, hkey, hresults, hr, hreference, sound.signed hresults hr,
              sound.digests hresults hr reference (List.mem_singleton_self _) hverified target hreference⟩
          · rw [List.getElem?_set_ne hij] at hj
            exact h.valid j hj
        · rcases Bool.or_eq_true_iff.1 hcovers with hcovers | hhere
          · exact h.covers hcovers
          · exact ⟨i, hi, beq_iff_eq.1 hhere⟩

theorem Justified.judgeCert {v' : Verdicts} (sound : lib.Sound Signed Matches) (hcert : cert ∈ sp.idp.certs)
    (h : Justified lib sp Signed Matches doc sigs assertion v)
    (hstep : judgeCert lib doc sigs assertion v cert = .ok v') :
    Justified lib sp Signed Matches doc sigs assertion v' := by
  obtain ⟨key, hkey, hstep⟩ := bind_ok hstep
  obtain ⟨results, hresults, hstep⟩ := bind_ok hstep
  obtain ⟨⟨⟩, hlength, hstep⟩ := bind_ok hstep
  cases hstep
  have hlength := demand_ok.1 hlength
  refine List.foldlRecOn results.zipIdx _ h fun v hv r hr => ?_
  obtain ⟨hi, heq⟩ := List.mem_zipIdx' hr
  exact hv.judge sound hcert (of_mapError hkey) (of_mapError hresults) (heq ▸ List.getElem_mem hi) (hlength ▸ hi)

theorem signatures_ok (sound : lib.Sound Signed Matches) (h : checkSignatures lib sp doc root assertion = .ok ()) :
    (∀ sig ∈ signatures doc root, ∃ target, (target = root ∨ target = assertion) ∧ doc.parent sig = some target ∧
      AcceptedShape doc sig ∧ Covers lib sp Signed Matches doc sig target) ∧
    ∃ sig ∈ signatures doc root, doc.parent sig = some assertion := by
  obtain ⟨⟨⟩, -, h⟩ := bind_ok h
  obtain ⟨⟨⟩, hplaces, h⟩ := bind_ok h
  obtain ⟨v, hloop, h⟩ := bind_ok h
  obtain ⟨⟨⟩, hall, h⟩ := bind_ok h
  have hall := List.all_eq_true.1 (demand_ok.1 hall)
  have hjustified : Justified lib sp Signed Matches doc (signatures doc root) assertion v :=
    foldlM_keeps (P := Justified lib sp Signed Matches doc (signatures doc root) assertion) hloop
      ⟨by simp, fun i hi => by simp [List.getElem?_replicate] at hi, fun hcovers => by cases hcovers⟩
      fun v cert v' hcert hv hstep => hv.judgeCert sound hcert hstep
  refine ⟨fun sig hsig => ?_, ?_⟩
  · obtain ⟨i, hi, rfl⟩ := List.getElem_of_mem hsig
    obtain ⟨⟨⟩, hshape, hplace⟩ := bind_ok (forall_of_forM hplaces _ hsig)
    have hvalid : v.valid[i]? = some true := by
      have hlt : i < v.valid.length := hjustified.length ▸ hi
      rw [List.getElem?_eq_getElem hlt]
      exact congrArg some (hall _ (List.getElem_mem hlt))
    have hcovers := hjustified.valid i hvalid
    rw [CoversParent, List.getD_eq_getElem _ _ hi] at hcovers
    rcases demand_ok.1 hplace with hparent | hparent
    · exact ⟨root, .inl rfl, hparent, acceptedShape_of_ok hshape, hcovers root hparent⟩
    · exact ⟨assertion, .inr rfl, hparent, acceptedShape_of_ok hshape, hcovers assertion hparent⟩
  · obtain ⟨i, hi, hparent⟩ := hjustified.covers (demand_ok.1 h)
    rw [List.getD_eq_getElem _ _ hi] at hparent
    exact ⟨_, List.getElem_mem hi, hparent⟩

end Vouching

/-! ## What is read of an assertion -/

section Reading

variable {Key : Type} (lib : Libraries Key) (sp : ServiceProvider) (requestId : Text) (now : Int) {doc' : Document}
  {id id' : NodeId} (h : Alike doc id doc' id')

include h

theorem Alike.subjectName : subjectName doc id = subjectName doc' id' := by
  refine (h.oneChild ..).bind fun n n' hn => ?_
  cases hn with
  | none => rfl
  | some hn => simp only [hn.text]

theorem Alike.confirm (found : Option Int) :
    confirm lib sp doc requestId now found id = confirm lib sp doc' requestId now found id' := by
  unfold Saml.confirm
  rw [h.attr]
  split
  · rfl
  · refine (h.oneChild ..).bind fun data data' hdata => ?_
    cases hdata with
    | none => rfl
    | some hdata => simp only [hdata.attr, hdata.timeAttr]

theorem Alike.checkSubject : checkSubject lib sp doc id requestId now = checkSubject lib sp doc' id' requestId now := by
  refine (h.requiredChild ..).bind fun subject subject' hsubject => ?_
  have hconfirmed := foldlM_alike (hsubject.childrenNamed nsAssertion "SubjectConfirmation")
    (fun found _ _ hsc => hsc.confirm lib sp requestId now found) none
  rw [hsubject.subjectName, hconfirmed]

theorem Alike.audience (ours : Bool) : audience sp doc ours id = audience sp doc' ours id' := by
  simp only [Saml.audience, h.text]

theorem Alike.condition (audiences : Nat) : condition sp doc audiences id = condition sp doc' audiences id' := by
  have hours := foldlM_alike (h.childrenNamed nsAssertion "Audience") (fun ours _ _ hau =>
    hau.audience sp ours) false
  simp only [Saml.condition, h.is, hours]

theorem Alike.checkConditions : checkConditions lib sp doc id now = checkConditions lib sp doc' id' now := by
  refine (h.requiredChild ..).bind fun conditions conditions' hconditions => ?_
  have haudiences := foldlM_alike hconditions.childElements (fun n _ _ hc => hc.condition sp n) 0
  simp only [hconditions.timeAttr, haudiences]

theorem Alike.checkStatements : checkStatements lib doc id now = checkStatements lib doc' id' now := by
  have hstatements := h.childrenNamed nsAssertion "AuthnStatement"
  have hone : ∀ u s s', Alike doc s doc' s' → statement lib doc now u s = statement lib doc' now u s' :=
      fun _ _ _ hs => by
    simp only [statement, hs.timeAttr]
  simp only [Saml.checkStatements, hstatements.length_eq, foldlM_alike hstatements hone]

theorem Alike.sidAttributes :
    List.Forall₂ (fun c c' => Alike doc c doc' c') (sidAttributes sp doc id) (sidAttributes sp doc' id') :=
  List.rel_filter (fun _ _ hat => by simp only [hat.attr])
    (List.rel_flatMap (h.childrenNamed ..) fun _ _ hst => hst.childrenNamed ..)

theorem Alike.checkSid : checkSid lib sp doc id = checkSid lib sp doc' id' := by
  have hfound := h.sidAttributes sp
  unfold Saml.checkSid
  generalize Saml.sidAttributes sp doc id = found at hfound
  generalize Saml.sidAttributes sp doc' id' = found' at hfound
  match hfound with
  | .nil => rfl
  | .cons hattr .nil =>
    have hvalues := hattr.childrenNamed nsAssertion "AttributeValue"
    simp only
    generalize Saml.childrenNamed doc _ nsAssertion "AttributeValue" = values at hvalues
    generalize Saml.childrenNamed doc' _ nsAssertion "AttributeValue" = values' at hvalues
    match hvalues with
    | .nil => rfl
    | .cons hvalue .nil => simp only [hvalue.text]
    | .cons _ (.cons _ _) => rfl
  | .cons _ (.cons _ _) => rfl

theorem Alike.checkAssertion :
    checkAssertion lib sp doc id requestId now = checkAssertion lib sp doc' id' requestId now := by
  unfold Saml.checkAssertion
  simp only [h.attr, h.timeAttr, h.checkSubject lib sp requestId now, h.checkConditions lib sp now,
    h.checkStatements lib now, h.checkSid lib sp]
  congr 1
  funext _
  congr 1
  funext _
  refine (h.requiredChild ..).bind fun issuer issuer' hissuer => ?_
  rw [hissuer.text]

end Reading

/-! ## An accepted document -/

/-- The one assertion of the document is the one that is signed. -/
structure NotWrapped {Key : Type} (lib : Libraries Key) (sp : ServiceProvider) (Signed : Key → Document → NodeId → Prop)
    (Matches : Document → NodeId → NodeId → Prop) (doc : Document) (root assertion : NodeId) : Prop where
  response : doc.documentElement = some root ∧ is doc root nsProtocol "Response"
  only : ∀ n, is doc n nsAssertion "Assertion" ↔ n = assertion
  child : doc.parent assertion = some root
  signed : ∃ sig, is doc sig nsDsig "Signature" ∧ doc.parent sig = some assertion ∧ AcceptedShape doc sig ∧
    Covers lib sp Signed Matches doc sig assertion
  signatures : ∀ sig, is doc sig nsDsig "Signature" → ∃ target, (target = root ∨ target = assertion) ∧
    doc.parent sig = some target ∧ AcceptedShape doc sig ∧ Covers lib sp Signed Matches doc sig target
  plain : ∀ n, isRemark (doc.node n) = false

theorem plain_ok (h : plain doc = .ok ()) (n : NodeId) : isRemark (doc.node n) = false := by
  have hplain := demand_ok.1 h
  cases hn : doc.node n with
  | none => rfl
  | some t =>
    have hne : n ≠ [] := by
      rintro rfl
      cases hn
    have hmem : n ∈ doc.descendants doc.root := mem_descendants.2 ⟨n, hne, rfl, by rw [hn]; rfl⟩
    rw [← hn]
    exact Bool.eq_false_iff.2 (hplain n hmem)

theorem mem_of_is {n : NodeId} {name' : Text} (hroot : doc.documentElement = some root)
    (his : is doc root ns name = true) (hn : is doc n ns' name' = true) (hne : name ≠ name') :
    n ∈ (doc.descendants root).filter fun n => is doc n ns' name' := by
  have helement : (doc.element n).isSome := by
    cases he : doc.element n with
    | none => simp [is, he] at hn
    | some e => rfl
  rcases (of_documentElement hroot).2 n helement with rfl | hmem
  · exact absurd (is_inj his hn) hne
  · exact List.mem_filter.2 ⟨hmem, hn⟩

theorem theAssertion_ok {a : NodeId} (h : theAssertion doc root = .ok a) :
    childrenNamed doc root nsAssertion "Assertion" = [a] ∧
      ∃ x, ((doc.descendants root).filter fun n => is doc n nsAssertion "Assertion") = [x] := by
  obtain ⟨⟨⟩, -, h⟩ := bind_ok h
  split at h
  · rename_i b x hdirect hall
    cases h
    exact ⟨hdirect, x, hall⟩
  · cases h

/-! ## A sample provider -/

def sampleElement (ns : Text) (name : String) (attributes : List (String × Text)) (kids : List Node) : Node :=
  .node ⟨⟨some ns, name.toList⟩, attributes.map fun a => ⟨⟨none, a.1.toList⟩, a.2⟩⟩ kids

def sampleSignature : Node :=
  let d := sampleElement nsDsig
  d "Signature" [] [
    d "SignedInfo" [] [
      d "CanonicalizationMethod" [("Algorithm", excC14n)] [],
      d "SignatureMethod" [("Algorithm", "http://www.w3.org/2001/04/xmldsig-more#rsa-sha256")] [],
      d "Reference" [("URI", "#a")] [
        d "Transforms" [] [d "Transform" [("Algorithm", enveloped)] [], d "Transform" [("Algorithm", excC14n)] []],
        d "DigestMethod" [("Algorithm", "http://www.w3.org/2001/04/xmlenc#sha256")] [],
        d "DigestValue" [] []]],
    d "SignatureValue" [] []]

/-- A response to one request whose assertion confirms each of the requests until a time. -/
def sampleResponse (request id : String) (confirmed : List (String × String)) : Document where
  top :=
    let a := sampleElement nsAssertion
    let p := sampleElement nsProtocol
    [p "Response" [("Version", "2.0"), ("InResponseTo", request.toList)] [
      p "Status" [] [p "StatusCode" [("Value", statusSuccess)] []],
      a "Assertion" [("Version", "2.0"), ("ID", id.toList), ("IssueInstant", "1970-01-01T00:00:00Z")] [
        a "Issuer" [] [.leaf (.text "idp")],
        sampleSignature,
        a "Subject" [] (confirmed.map fun c => a "SubjectConfirmation" [("Method", bearer)] [
          a "SubjectConfirmationData" [("Recipient", "acs"), ("InResponseTo", c.1.toList),
            ("NotOnOrAfter", c.2.toList)] []]),
        a "Conditions" [] [a "AudienceRestriction" [] [a "Audience" [] [.leaf (.text "sp")]]],
        a "AuthnStatement" [] [],
        a "AttributeStatement" [] [a "Attribute" [("Name", "sid")] [
          a "AttributeValue" [] [.leaf (.text "S-1-5-21")]]]]]]
  oneRoot := Nat.le_refl 1

def sampleProvider : ServiceProvider where
  idp := ⟨"idp", "sso", [[0]]⟩
  entityId := "sp"
  acsUrl := "acs"
  sidAttribute := "sid"
  skew := 180

/-- The first two documents each answer a sign-in of their own. The other two carry one assertion, which confirms
both sign-ins, in responses to one and to the other. -/
def sampleParse (xml : Text) : Except String Document :=
  if xml = "1" then .ok (sampleResponse "_1" "a" [("_1", "1970-01-01T00:05:00Z")])
  else if xml = "2" then .ok (sampleResponse "_2" "b" [("_2", "1970-01-01T01:00:00Z")])
  else
    let both := [("_1", "1970-01-01T00:05:00Z"), ("_2", "1970-01-01T01:00:00Z")]
    if xml = "3" then .ok (sampleResponse "_1" "c" both)
    else if xml = "4" then .ok (sampleResponse "_2" "c" both)
    else .error "not well formed"

def sampleLibraries : Libraries Unit where
  decode t := some (t.map fun c => UInt8.ofNat c.toNat)
  fromUtf8 bytes := some (bytes.map fun b => Char.ofNat b.toNat)
  parse := sampleParse
  loadCert _ := .ok ()
  verifyAll _ _ := .ok [.valid [0, 1, 1] [⟨"#a", some [0, 1], true⟩]]
  hmac t := [UInt8.ofNat t.length]
  query _ := []
  debug := String.ofList

def sampleCookie (id : String) (started : Int) : Option Text :=
  some (flowCookie sampleLibraries id.toList (started + flowSecs))

section Accepted

variable {Key : Type} {lib : Libraries Key} {sp : ServiceProvider} {Signed : Key → Document → NodeId → Prop}
  {Matches : Document → NodeId → NodeId → Prop} {requestId : Text} {now : Int}

/-- A document that passes the checks is not wrapped, and what was verified is what its assertion says. -/
theorem checkDocument_ok {result : Verified × Text × Int} (sound : lib.Sound Signed Matches)
    (h : checkDocument lib sp doc requestId now = .ok result) : ∃ root assertion,
    NotWrapped lib sp Signed Matches doc root assertion ∧
      checkAssertion lib sp doc assertion requestId now = .ok result := by
  obtain ⟨⟨⟩, hplain, h⟩ := bind_ok h
  split at h
  · cases h
  rename_i root hroot
  obtain ⟨⟨⟩, hresponse, h⟩ := bind_ok h
  obtain ⟨⟨⟩, -, h⟩ := bind_ok h
  obtain ⟨⟨⟩, -, h⟩ := bind_ok h
  obtain ⟨⟨⟩, -, h⟩ := bind_ok h
  obtain ⟨assertion, hassertion, h⟩ := bind_ok h
  obtain ⟨⟨⟩, hsignatures, h⟩ := bind_ok h
  have hresponse := (demand_ok.1 hresponse).1
  obtain ⟨hdirect, x, hall⟩ := theAssertion_ok hassertion
  obtain ⟨hcovered, sig, hsig, hparent⟩ := signatures_ok sound hsignatures
  have hnamed : assertion ∈ childrenNamed doc root nsAssertion "Assertion" := by rw [hdirect]; simp
  obtain ⟨helement, his⟩ := List.mem_filter.1 hnamed
  have honly : ∀ n, is doc n nsAssertion "Assertion" → n = x := fun n hn =>
    List.mem_singleton.1 (hall ▸ mem_of_is hroot hresponse hn (by simp))
  refine ⟨root, assertion, ?_, h⟩
  exact {
    response := ⟨hroot, hresponse⟩
    only := fun n => ⟨fun hn => (honly n hn).trans (honly assertion his).symm, fun hn => hn ▸ his⟩
    child := parent_of_mem_children (List.mem_filter.1 helement).1
    signed := by
      obtain ⟨target, -, htarget, hshape, hcovers⟩ := hcovered sig hsig
      obtain rfl := Option.some.inj (htarget.symm.trans hparent)
      exact ⟨sig, (List.mem_filter.1 hsig).2, hparent, hshape, hcovers⟩
    signatures := fun sig hsig => hcovered sig (mem_of_is hroot hresponse hsig (by simp))
    plain := plain_ok hplain }

/-- Acceptance is sound against wrapping: the document of an accepted response is not wrapped, and what was verified
is read within its assertion, in that any document with the same assertion would give the same. -/
theorem accept_not_wrapped (sound : lib.Sound Signed Matches) {spent : Spent} {samlResponse : Text} {flow : Option Text}
    {verified : Verified} (accepted : (accept lib sp spent samlResponse flow now).1 = .ok verified) :
    ∃ requestId doc root assertion id expires, flowRequest lib flow now = .ok requestId ∧
      decodeResponse lib samlResponse = .ok doc ∧ NotWrapped lib sp Signed Matches doc root assertion ∧
      ∀ doc' assertion', doc'.node assertion' = doc.node assertion →
        checkAssertion lib sp doc' assertion' requestId now = .ok (verified, id, expires) := by
  unfold accept at accepted
  split at accepted
  · cases accepted
  rename_i p hp
  obtain ⟨requestId, hrequest, hp⟩ := bind_ok hp
  obtain ⟨doc, hdoc, hp⟩ := bind_ok hp
  obtain ⟨⟨verified', id, expires⟩, hchecked, hp⟩ := bind_ok hp
  cases hp
  obtain ⟨root, assertion, hwrapped, hassertion⟩ := checkDocument_ok sound hchecked
  have hverified : verified' = verified := by
    unfold spend at accepted
    split at accepted
    · cases accepted
    · split at accepted
      · cases accepted
      · exact Except.ok.inj accepted
  subst hverified
  refine ⟨requestId, doc, root, assertion, id, expires, hrequest, hdoc, hwrapped, fun doc' assertion' hsame => ?_⟩
  have hnode : ∃ t, doc.node assertion = some t := by
    have his := (hwrapped.only assertion).2 rfl
    cases hn : doc.node assertion with
    | none => simp [is, element, hn] at his
    | some t => exact ⟨t, rfl⟩
  rw [← Alike.checkAssertion lib sp requestId now ⟨hnode, hsame⟩]
  exact hassertion

end Accepted

theorem sample_sound : sampleLibraries.Sound (fun _ _ sig => sig = [0, 1, 1]) fun _ _ target => target = [0, 1] where
  signed hresults hvalid := by
    cases hresults
    cases List.mem_singleton.1 hvalid
    rfl
  digests hresults hvalid r hr _ target htarget := by
    cases hresults
    cases List.mem_singleton.1 hvalid
    obtain rfl := List.mem_singleton.1 hr
    exact (Option.some.inj htarget).symm

/-- The first sample response is accepted for what its assertion says. -/
theorem accept_not_wrapped_one :
    (accept sampleLibraries sampleProvider [] ['1'] (sampleCookie "_1" 0) 0).1 = .ok ⟨"S-1-5-21", none⟩ ∧
    ∃ requestId doc root assertion id expires, flowRequest sampleLibraries (sampleCookie "_1" 0) 0 = .ok requestId ∧
      decodeResponse sampleLibraries ['1'] = .ok doc ∧
      NotWrapped sampleLibraries sampleProvider (fun _ _ sig => sig = [0, 1, 1]) (fun _ _ target => target = [0, 1]) doc
        root assertion ∧
      ∀ doc' assertion', doc'.node assertion' = doc.node assertion →
        checkAssertion sampleLibraries sampleProvider doc' assertion' requestId 0 =
          .ok (⟨"S-1-5-21", none⟩, id, expires) := by
  have haccepted : (accept sampleLibraries sampleProvider [] ['1'] (sampleCookie "_1" 0) 0).1 =
      .ok ⟨"S-1-5-21", none⟩ := by decide +kernel
  exact ⟨haccepted, accept_not_wrapped sample_sound haccepted⟩

end WebAccess.Saml
