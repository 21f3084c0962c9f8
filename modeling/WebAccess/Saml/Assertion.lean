/-
What `check_assertion` accepts, said of the tree alone: which elements and attributes there are, which
texts and times they hold, and how the times lie to the clock. The check is a sequence of readings, each
of which can refuse; every loop of it either refuses or notes whether it has met what it is looking for.
-/
import WebAccess.Saml.Wrapping
import Mathlib.Data.List.Nodup

namespace WebAccess.Saml

open Wire Codec Document

/-! ## Readings -/

section Readings

variable {doc : Document} {n c : NodeId} {ns name : Text}

theorem exists_bind_ok {ε α β : Type} {m : Except ε α} {f : α → Except ε β} :
    (∃ b, m >>= f = .ok b) ↔ ∃ a, m = .ok a ∧ ∃ b, f a = .ok b := by
  simp only [bind_ok_iff]
  exact ⟨fun ⟨b, a, hm, hf⟩ => ⟨a, hm, b, hf⟩, fun ⟨a, hm, b, hf⟩ => ⟨b, a, hm, hf⟩⟩

/-- The text of an element that holds text alone. -/
def TextIs (doc : Document) (n : NodeId) (t : Text) : Prop :=
  ∃ parts : List Text, List.Forall₂ (fun c part => doc.node c = some (.leaf (.text part)) ∨
    doc.node c = some (.leaf (.cdata part))) (doc.children n) parts ∧ t = trim parts.flatten

/-- The time an attribute holds, if it is there; what is there is a time. -/
def TimeIs (doc : Document) (n : NodeId) (name : Text) (time : Option Int) : Prop :=
  (attr doc n name = none ∧ time = none) ∨
    ∃ v t, attr doc n name = some v ∧ parseInstant v = some t ∧ time = some t

theorem textPart_ok {node : Option Node} {part : Text} :
    textPart node = .ok part ↔ node = some (.leaf (.text part)) ∨ node = some (.leaf (.cdata part)) := by
  unfold textPart
  split
  · simp
  · simp
  · rename_i htext hcdata
    refine iff_of_false nofun ?_
    rintro (h | h)
    · exact htext part h
    · exact hcdata part h

theorem mapM_ok {α β : Type} {f : α → Except SamlError β} {l : List α} {bs : List β} :
    l.mapM f = .ok bs ↔ List.Forall₂ (fun a b => f a = .ok b) l bs := by
  induction l generalizing bs with
  | nil =>
    rw [List.mapM_nil, List.forall₂_nil_left_iff]
    exact ⟨fun h => (Except.ok.inj h).symm, fun h => by rw [h]; rfl⟩
  | cons a l ih =>
    simp only [List.mapM_cons, bind_ok_iff, ih, List.forall₂_cons_left_iff]
    constructor
    · rintro ⟨b, hb, bs', hbs', h⟩
      exact ⟨b, bs', hb, hbs', (Except.ok.inj h).symm⟩
    · rintro ⟨b, bs', hb, hbs', rfl⟩
      exact ⟨b, hb, bs', hbs', rfl⟩

variable {t : Text} {time : Option Int}

theorem text_ok : text doc n = .ok t ↔ TextIs doc n t := by
  unfold text TextIs
  simp only [bind_ok_iff, mapM_ok, textPart_ok]
  exact exists_congr fun parts => and_congr_right fun _ => ⟨fun h => (Except.ok.inj h).symm, fun h => by rw [h]; rfl⟩

theorem timeAttr_ok {debug : Text → String} : timeAttr doc n debug name = .ok time ↔ TimeIs doc n name time := by
  unfold timeAttr TimeIs
  cases attr doc n name with
  | none => simp [eq_comm]
  | some v => cases hparse : parseInstant v <;> simp [hparse, refuse, eq_comm]

theorem TextIs.unique {t' : Text} (h : TextIs doc n t) (h' : TextIs doc n t') : t = t' :=
  Except.ok.inj ((text_ok.2 h).symm.trans (text_ok.2 h'))

theorem TimeIs.unique {time' : Option Int} (h : TimeIs doc n name time) (h' : TimeIs doc n name time') :
    time = time' := by
  rcases h with ⟨hnone, rfl⟩ | ⟨v, t, hv, ht, rfl⟩ <;> rcases h' with ⟨hnone', rfl⟩ | ⟨v', t', hv', ht', rfl⟩
  · rfl
  · exact nomatch hnone.symm.trans hv'
  · exact nomatch hnone'.symm.trans hv
  · rw [Option.some.inj (hv.symm.trans hv')] at ht
    rw [← ht, ht']

theorem oneChild_ok {found : Option NodeId} : oneChild doc n ns name = .ok found ↔
    (childrenNamed doc n ns name).length ≤ 1 ∧ found = (childrenNamed doc n ns name).head? := by
  simp only [oneChild, bind_ok_iff, demand_ok]
  constructor
  · rintro ⟨-, hlen, h⟩
    exact ⟨hlen, (Except.ok.inj h).symm⟩
  · rintro ⟨hlen, rfl⟩
    exact ⟨(), hlen, rfl⟩

theorem requiredChild_ok_iff : requiredChild doc n ns name = .ok c ↔ childrenNamed doc n ns name = [c] := by
  simp only [requiredChild, bind_ok_iff, oneChild_ok]
  constructor
  · rintro ⟨found, ⟨hlen, rfl⟩, h⟩
    generalize childrenNamed doc n ns name = l at hlen h ⊢
    match l, hlen, h with
    | [c'], _, h => rw [Except.ok.inj h]
    | [], _, h => cases h
  · intro h
    rw [h]
    exact ⟨some c, ⟨Nat.le_refl 1, rfl⟩, rfl⟩

/-- A loop whose steps refuse by what they read alone, and note whether they have met something, succeeds and has
met it just if no step refuses and it had been met or one of the steps meets it. -/
theorem foldlM_ok_iff {σ α : Type} {f : σ → α → Except SamlError σ} {P C : α → Prop} {Q : σ → Prop}
    (hf : ∀ s x, (∃ s', f s x = .ok s') ↔ P x) (hQ : ∀ s x s', f s x = .ok s' → (Q s' ↔ Q s ∨ C x))
      {l : List α} {s : σ} :
    (∃ s', l.foldlM f s = .ok s' ∧ Q s') ↔ (∀ x ∈ l, P x) ∧ (Q s ∨ ∃ x ∈ l, C x) := by
  induction l generalizing s with
  | nil =>
    simp only [List.foldlM_nil, List.not_mem_nil, false_implies, implies_true, true_and, false_and,
      exists_false, or_false]
    exact ⟨fun ⟨s', hs, hq⟩ => Except.ok.inj hs ▸ hq, fun hq => ⟨s, rfl, hq⟩⟩
  | cons x l ih =>
    simp only [List.foldlM_cons, bind_ok_iff, List.forall_mem_cons, List.exists_mem_cons_iff]
    constructor
    · rintro ⟨s'', ⟨s', hstep, hrest⟩, hq⟩
      obtain ⟨hall, hmet⟩ := ih.1 ⟨s'', hrest, hq⟩
      exact ⟨⟨(hf s x).1 ⟨s', hstep⟩, hall⟩, by rwa [hQ s x s' hstep, or_assoc] at hmet⟩
    · rintro ⟨⟨hx, hall⟩, hmet⟩
      obtain ⟨s', hstep⟩ := (hf s x).2 hx
      obtain ⟨s'', hrest, hq⟩ := ih.2 ⟨hall, by rwa [hQ s x s' hstep, or_assoc]⟩
      exact ⟨s'', ⟨s', hstep, hrest⟩, hq⟩

end Readings

/-! ## The parts of an assertion -/

section Parts

variable (sp : ServiceProvider) (doc : Document)

def IsBearer (sc : NodeId) : Prop := attr doc sc "Method" = some bearer

def confirmationData (sc : NodeId) : List NodeId := childrenNamed doc sc nsAssertion "SubjectConfirmationData"

/-- A confirmation that can be read: a bearer confirmation has data at most once, and its end is a time. -/
def ConfirmationReads (sc : NodeId) : Prop :=
  IsBearer doc sc → (confirmationData doc sc).length ≤ 1 ∧
    ∀ data ∈ confirmationData doc sc, ∃ time, TimeIs doc data "NotOnOrAfter" time

def Confirms (requestId : Text) (now : Int) (sc : NodeId) : Prop :=
  IsBearer doc sc ∧ ∃ data ∈ confirmationData doc sc, attr doc data "Recipient" = some sp.acsUrl ∧
    attr doc data "InResponseTo" = some requestId ∧ attr doc data "NotBefore" = none ∧
    ∃ u, TimeIs doc data "NotOnOrAfter" (some u) ∧ now < u + sp.skew

def NamesThisProxy (c : NodeId) : Prop :=
  (∀ au ∈ childrenNamed doc c nsAssertion "Audience", ∃ t, TextIs doc au t) ∧
    ∃ au ∈ childrenNamed doc c nsAssertion "Audience", TextIs doc au sp.entityId

def IsAudienceRestriction (c : NodeId) : Prop := is doc c nsAssertion "AudienceRestriction" = true

/-- A condition the proxy understands: an audience restriction, one time use, or a restriction for proxies. -/
def Understood (c : NodeId) : Prop :=
  IsAudienceRestriction doc c ∨ is doc c nsAssertion "OneTimeUse" = true ∨
    is doc c nsAssertion "ProxyRestriction" = true

/-- One `Subject`, with at most one name, whose confirmations can be read and one of which confirms the request. -/
def SubjectConfirmed (a : NodeId) (requestId : Text) (now : Int) : Prop :=
  ∃ subject, childrenNamed doc a nsAssertion "Subject" = [subject] ∧
    (childrenNamed doc subject nsAssertion "NameID").length ≤ 1 ∧
    (∀ nameId ∈ childrenNamed doc subject nsAssertion "NameID", ∃ t, TextIs doc nameId t) ∧
    (∀ sc ∈ childrenNamed doc subject nsAssertion "SubjectConfirmation", ConfirmationReads doc sc) ∧
    ∃ sc ∈ childrenNamed doc subject nsAssertion "SubjectConfirmation", Confirms sp doc requestId now sc

/-- One `Conditions`, which has begun and not ended, with conditions that are understood, at least one of them a
restriction to an audience, and each such one to this proxy. -/
def ConditionsHold (a : NodeId) (now : Int) : Prop :=
  ∃ conditions, childrenNamed doc a nsAssertion "Conditions" = [conditions] ∧
    (∃ notBefore, TimeIs doc conditions "NotBefore" notBefore ∧ ∀ b ∈ notBefore, b ≤ now + sp.skew) ∧
    (∃ notOnOrAfter, TimeIs doc conditions "NotOnOrAfter" notOnOrAfter ∧ ∀ c ∈ notOnOrAfter, now < c + sp.skew) ∧
    (∀ c ∈ childElements doc conditions, Understood doc c ∧ (IsAudienceRestriction doc c → NamesThisProxy sp doc c)) ∧
    ∃ c ∈ childElements doc conditions, IsAudienceRestriction doc c

/-- There is an `AuthnStatement`, and none of a session that has ended. -/
def SessionOpen (a : NodeId) (now : Int) : Prop :=
  childrenNamed doc a nsAssertion "AuthnStatement" ≠ [] ∧
    ∀ st ∈ childrenNamed doc a nsAssertion "AuthnStatement",
      ∃ ends, TimeIs doc st "SessionNotOnOrAfter" ends ∧ ∀ t ∈ ends, now < t

/-- An `Attribute` with the name of the SID's, in an `AttributeStatement` of the assertion. -/
def IsSidAttribute (a n : NodeId) : Prop :=
  ∃ st ∈ childrenNamed doc a nsAssertion "AttributeStatement",
    n ∈ childrenNamed doc st nsAssertion "Attribute" ∧ attr doc n "Name" = some sp.sidAttribute

/-- The attribute of the SID is there once, and this text is its one value. -/
def StatesSid (a : NodeId) (raw : Text) : Prop :=
  ∃ sidAttr value, (∀ n, IsSidAttribute sp doc a n ↔ n = sidAttr) ∧
    childrenNamed doc sidAttr nsAssertion "AttributeValue" = [value] ∧ TextIs doc value raw

/-- What `check_assertion` asks of an assertion. -/
structure Acceptable (a : NodeId) (requestId : Text) (now : Int) : Prop where
  version : attr doc a "Version" = some "2.0"
  id : ∃ id, attr doc a "ID" = some id ∧ id ≠ []
  issuer : ∃ issuer, childrenNamed doc a nsAssertion "Issuer" = [issuer] ∧ TextIs doc issuer sp.idp.entityId
  issued : ∃ t, TimeIs doc a "IssueInstant" (some t) ∧ t ≤ now + sp.skew
  subject : SubjectConfirmed sp doc a requestId now
  conditions : ConditionsHold sp doc a now
  statements : SessionOpen doc a now
  sid : ∃ raw, StatesSid sp doc a raw ∧ (canonicalSid raw).isSome

end Parts

/-! ## The loops -/

section Loops

variable {Key : Type} {lib : Libraries Key} {sp : ServiceProvider} {doc : Document} {requestId : Text} {now : Int}

/-- The confirmation is for this request and still in time. -/
def Matches (sp : ServiceProvider) (doc : Document) (requestId : Text) (now : Int) (data : NodeId) (time : Option Int) :
    Prop :=
  attr doc data "Recipient" = some sp.acsUrl ∧ attr doc data "InResponseTo" = some requestId ∧
    attr doc data "NotBefore" = none ∧ time.any (fun u => decide (now < u + sp.skew)) = true

instance (data : NodeId) (time : Option Int) : Decidable (Matches sp doc requestId now data time) :=
  inferInstanceAs (Decidable (_ ∧ _ ∧ _ ∧ _))

variable {found : Option Int} {sc : NodeId}

theorem confirm_other (h : ¬ IsBearer doc sc) : confirm lib sp doc requestId now found sc = .ok found := if_pos h

theorem confirm_bearer (h : IsBearer doc sc) :
    confirm lib sp doc requestId now found sc = (do
      match ← oneChild doc sc nsAssertion "SubjectConfirmationData" with
      | none => pure found
      | some data => do
        let time ← timeAttr doc data lib.debug "NotOnOrAfter"
        if Matches sp doc requestId now data time then pure (later found time) else pure found) :=
  if_neg (not_not.2 h)

variable {found' : Option Int} {c : NodeId} {l : List NodeId}

theorem confirm_ok (h : confirm lib sp doc requestId now found sc = .ok found') :
    (¬ IsBearer doc sc ∧ found' = found) ∨ (IsBearer doc sc ∧ confirmationData doc sc = [] ∧ found' = found) ∨
      ∃ data time, IsBearer doc sc ∧ confirmationData doc sc = [data] ∧ TimeIs doc data "NotOnOrAfter" time ∧
        found' = if Matches sp doc requestId now data time then later found time else found := by
  by_cases hbearer : IsBearer doc sc
  · rw [confirm_bearer hbearer] at h
    obtain ⟨one, hone, h⟩ := bind_ok h
    obtain ⟨hlen, rfl⟩ := oneChild_ok.1 hone
    have hdata : childrenNamed doc sc nsAssertion "SubjectConfirmationData" = confirmationData doc sc := rfl
    rw [hdata] at hlen h
    generalize hl : confirmationData doc sc = l at hlen h
    match l, hlen, h with
    | [], _, h => exact .inr (.inl ⟨hbearer, rfl, (Except.ok.inj h).symm⟩)
    | [data], _, h =>
      obtain ⟨time, htime, h⟩ := bind_ok h
      refine .inr (.inr ⟨data, time, hbearer, rfl, timeAttr_ok.1 htime, ?_⟩)
      split at h
      · rw [if_pos ‹_›]
        exact (Except.ok.inj h).symm
      · rw [if_neg ‹_›]
        exact (Except.ok.inj h).symm
  · rw [confirm_other hbearer] at h
    exact .inl ⟨hbearer, (Except.ok.inj h).symm⟩

theorem confirm_reads :
    (∃ found', confirm lib sp doc requestId now found sc = .ok found') ↔ ConfirmationReads doc sc := by
  constructor
  · rintro ⟨found', h⟩ hbearer
    rcases confirm_ok h with ⟨hother, -⟩ | ⟨-, hnone, -⟩ | ⟨data, time, -, hone, htime, -⟩
    · exact absurd hbearer hother
    · rw [hnone]
      exact ⟨Nat.zero_le 1, nofun⟩
    · rw [hone]
      refine ⟨Nat.le_refl 1, fun data' hdata' => ?_⟩
      rw [List.mem_singleton.1 hdata']
      exact ⟨time, htime⟩
  · intro h
    by_cases hbearer : IsBearer doc sc
    · obtain ⟨hlen, htimes⟩ := h hbearer
      have hone : oneChild doc sc nsAssertion "SubjectConfirmationData" = .ok (confirmationData doc sc).head? :=
        oneChild_ok.2 ⟨hlen, rfl⟩
      rw [confirm_bearer hbearer, hone]
      cases hhead : (confirmationData doc sc).head? with
      | none => exact ⟨found, rfl⟩
      | some data =>
        obtain ⟨time, htime⟩ := htimes data (List.mem_of_mem_head? hhead)
        show ∃ found', (timeAttr doc data lib.debug "NotOnOrAfter" >>= _) = _
        rw [timeAttr_ok.2 htime]
        by_cases hmatch : Matches sp doc requestId now data time
        · exact ⟨_, if_pos hmatch⟩
        · exact ⟨_, if_neg hmatch⟩
    · exact ⟨found, confirm_other hbearer⟩

theorem isSome_later {u : Int} : (later found (some u)).isSome = true := by
  cases found <;> rfl

theorem confirm_met (h : confirm lib sp doc requestId now found sc = .ok found') :
    found'.isSome = true ↔ found.isSome = true ∨ Confirms sp doc requestId now sc := by
  rcases confirm_ok h with ⟨hother, rfl⟩ | ⟨-, hnone, rfl⟩ | ⟨data, time, hbearer, hone, htime, rfl⟩
  · exact (or_iff_left fun hc => hother hc.1).symm
  · refine (or_iff_left fun hc => ?_).symm
    obtain ⟨-, data, hdata, -⟩ := hc
    rw [hnone] at hdata
    cases hdata
  · by_cases hmatch : Matches sp doc requestId now data time
    · obtain ⟨hto, hanswers, hbefore, huntil⟩ := hmatch
      obtain ⟨u, rfl, hu⟩ := (Option.any_eq_true ..).1 huntil
      rw [if_pos ⟨hto, hanswers, hbefore, huntil⟩]
      refine iff_of_true isSome_later (.inr ⟨hbearer, data, ?_, hto, hanswers, hbefore, u, htime, of_decide_eq_true hu⟩)
      rw [hone]
      exact List.mem_singleton.2 rfl
    · rw [if_neg hmatch]
      refine (or_iff_left fun hc => hmatch ?_).symm
      obtain ⟨-, data', hdata', hto, hanswers, hbefore, u, hu, hlt⟩ := hc
      rw [hone] at hdata'
      rw [List.mem_singleton.1 hdata'] at hto hanswers hbefore hu
      rw [htime.unique hu]
      exact ⟨hto, hanswers, hbefore, decide_eq_true hlt⟩

theorem audience_ok {ours ours' : Bool} {au : NodeId} :
    audience sp doc ours au = .ok ours' ↔ ∃ t, TextIs doc au t ∧ ours' = (ours || decide (t = sp.entityId)) := by
  simp only [audience, bind_ok_iff, text_ok]
  exact exists_congr fun t => and_congr_right fun _ => ⟨fun h => (Except.ok.inj h).symm, fun h => by rw [h]; rfl⟩

theorem audiences_ok :
    (∃ ours, (childrenNamed doc c nsAssertion "Audience").foldlM (audience sp doc) false = .ok ours ∧
      ours = true) ↔
      NamesThisProxy sp doc c := by
  refine (foldlM_ok_iff (P := fun au => ∃ t, TextIs doc au t) (C := fun au => TextIs doc au sp.entityId)
    (fun ours au => ?_) fun ours au ours' h => ?_).trans (and_congr_right fun _ => or_iff_right Bool.false_ne_true)
  · simp only [audience_ok]
    exact ⟨fun ⟨_, t, ht, _⟩ => ⟨t, ht⟩, fun ⟨t, ht⟩ => ⟨_, t, ht, rfl⟩⟩
  · obtain ⟨t, ht, rfl⟩ := audience_ok.1 h
    rw [Bool.or_eq_true, decide_eq_true_eq]
    exact or_congr_right ⟨fun heq => heq ▸ ht, fun hours => ht.unique hours⟩

theorem condition_ok {audiences audiences' : Nat} : condition sp doc audiences c = .ok audiences' ↔
    (IsAudienceRestriction doc c ∧ NamesThisProxy sp doc c ∧ audiences' = audiences + 1) ∨
      (¬ IsAudienceRestriction doc c ∧ Understood doc c ∧ audiences' = audiences) := by
  unfold condition IsAudienceRestriction
  by_cases hrestricts : is doc c nsAssertion "AudienceRestriction" = true
  · rw [if_pos hrestricts]
    simp only [bind_ok_iff, demand_ok]
    constructor
    · rintro ⟨ours, hfold, _, hours, h⟩
      exact .inl ⟨hrestricts, audiences_ok.1 ⟨ours, hfold, hours⟩, (Except.ok.inj h).symm⟩
    · rintro (⟨-, hnames, rfl⟩ | ⟨h, -⟩)
      · obtain ⟨ours, hfold, hours⟩ := audiences_ok.2 hnames
        exact ⟨ours, hfold, (), hours, rfl⟩
      · exact absurd hrestricts h
  · rw [if_neg hrestricts]
    simp only [bind_ok_iff, demand_ok]
    constructor
    · rintro ⟨_, hother, h⟩
      exact .inr ⟨hrestricts, .inr hother, (Except.ok.inj h).symm⟩
    · rintro (⟨h, -⟩ | ⟨-, hunderstood, rfl⟩)
      · exact absurd h hrestricts
      · exact ⟨(), hunderstood.resolve_left hrestricts, rfl⟩

theorem conditions_ok : (∃ audiences, l.foldlM (condition sp doc) 0 = .ok audiences ∧ audiences ≠ 0) ↔
    (∀ c ∈ l, Understood doc c ∧ (IsAudienceRestriction doc c → NamesThisProxy sp doc c)) ∧
      ∃ c ∈ l, IsAudienceRestriction doc c := by
  refine (foldlM_ok_iff (P := fun c => Understood doc c ∧ (IsAudienceRestriction doc c → NamesThisProxy sp doc c))
    (C := IsAudienceRestriction doc) (fun audiences c => ?_) fun audiences c audiences' h => ?_).trans
    (and_congr_right fun _ => or_iff_right fun h => h rfl)
  · simp only [condition_ok]
    constructor
    · rintro ⟨_, ⟨hrestricts, hnames, -⟩ | ⟨hother, hunderstood, -⟩⟩
      · exact ⟨.inl hrestricts, fun _ => hnames⟩
      · exact ⟨hunderstood, fun hrestricts => absurd hrestricts hother⟩
    · rintro ⟨hunderstood, hnames⟩
      by_cases hrestricts : IsAudienceRestriction doc c
      · exact ⟨_, .inl ⟨hrestricts, hnames hrestricts, rfl⟩⟩
      · exact ⟨_, .inr ⟨hrestricts, hunderstood, rfl⟩⟩
  · rcases condition_ok.1 h with ⟨hrestricts, -, rfl⟩ | ⟨hother, -, rfl⟩
    · exact iff_of_true (Nat.succ_ne_zero _) (.inr hrestricts)
    · exact (or_iff_left hother).symm

theorem all_decide {time : Option Int} {p : Int → Prop} [DecidablePred p] :
    (time.all fun t => decide (p t)) = true ↔ ∀ t ∈ time, p t := by
  cases time <;> simp

theorem statements_ok : (∃ u, l.foldlM (statement lib doc now) () = .ok u) ↔
    ∀ st ∈ l, ∃ ends, TimeIs doc st "SessionNotOnOrAfter" ends ∧ ∀ t ∈ ends, now < t := by
  have hloop := foldlM_ok_iff (l := l) (s := ()) (f := statement lib doc now) (Q := fun _ => True) (C := fun _ => True)
    (P := fun st => ∃ ends, TimeIs doc st "SessionNotOnOrAfter" ends ∧ ∀ t ∈ ends, now < t)
    (fun _ st => by simp only [statement, exists_bind_ok, timeAttr_ok, demand_ok, all_decide, exists_const])
    fun _ _ _ _ => iff_of_true trivial (.inl trivial)
  simpa using hloop

end Loops

/-! ## The check -/

section Check

variable {Key : Type} {lib : Libraries Key} {sp : ServiceProvider} {doc : Document} {a : NodeId}
    {requestId : Text} {now : Int}

theorem subjectName_ok {subject : NodeId} : (∃ r, subjectName doc subject = .ok r) ↔
    (childrenNamed doc subject nsAssertion "NameID").length ≤ 1 ∧
      ∀ nameId ∈ childrenNamed doc subject nsAssertion "NameID", ∃ t, TextIs doc nameId t := by
  unfold subjectName
  simp only [exists_bind_ok, oneChild_ok]
  generalize childrenNamed doc subject nsAssertion "NameID" = l
  match l with
  | [] => exact iff_of_true ⟨none, ⟨Nat.zero_le 1, rfl⟩, none, rfl⟩ ⟨Nat.zero_le 1, nofun⟩
  | [n] =>
    simp only [List.forall_mem_singleton]
    constructor
    · rintro ⟨_, ⟨-, rfl⟩, r, h⟩
      obtain ⟨t, ht, -⟩ := bind_ok ((map_eq_pure_bind _ _).symm.trans h)
      exact ⟨Nat.le_refl 1, t, text_ok.1 ht⟩
    · rintro ⟨-, t, ht⟩
      refine ⟨some n, ⟨Nat.le_refl 1, rfl⟩, some t, ?_⟩
      show some <$> text doc n = _
      rw [text_ok.2 ht]
      rfl
  | _ :: _ :: _ => exact iff_of_false (fun ⟨_, ⟨h, _⟩, _⟩ => absurd h (by simp)) fun ⟨h, _⟩ => absurd h (by simp)

theorem checkSubject_ok : (∃ r, checkSubject lib sp doc a requestId now = .ok r) ↔
    SubjectConfirmed sp doc a requestId now := by
  have hloop : ∀ subject, (∃ found, (childrenNamed doc subject nsAssertion "SubjectConfirmation").foldlM
      (confirm lib sp doc requestId now) none = .ok found ∧ found.isSome = true) ↔
      (∀ sc ∈ childrenNamed doc subject nsAssertion "SubjectConfirmation", ConfirmationReads doc sc) ∧
        ∃ sc ∈ childrenNamed doc subject nsAssertion "SubjectConfirmation", Confirms sp doc requestId now sc :=
    fun subject => (foldlM_ok_iff (f := confirm lib sp doc requestId now) (P := ConfirmationReads doc)
      (C := Confirms sp doc requestId now) (Q := fun found => found.isSome = true) (fun _ _ => confirm_reads)
      fun _ _ _ h => confirm_met h).trans (and_congr_right fun _ => or_iff_right Bool.false_ne_true)
  unfold checkSubject SubjectConfirmed
  simp only [exists_bind_ok, requiredChild_ok_iff]
  refine exists_congr fun subject => and_congr_right fun _ => ?_
  rw [← hloop, ← and_assoc, ← subjectName_ok]
  constructor
  · rintro ⟨name, hname, found, hfold, r, h⟩
    refine ⟨⟨name, hname⟩, found, hfold, ?_⟩
    cases found with
    | none => cases h
    | some u => rfl
  · rintro ⟨⟨name, hname⟩, found, hfold, hsome⟩
    obtain ⟨u, rfl⟩ := Option.isSome_iff_exists.1 hsome
    exact ⟨name, hname, some u, hfold, (name, u), rfl⟩

theorem checkConditions_ok : (∃ r, checkConditions lib sp doc a now = .ok r) ↔ ConditionsHold sp doc a now := by
  unfold checkConditions ConditionsHold
  simp only [exists_bind_ok, requiredChild_ok_iff, timeAttr_ok, demand_ok, all_decide, exists_const]
  refine exists_congr fun conditions => and_congr_right fun _ => ?_
  rw [← conditions_ok]
  constructor
  · rintro ⟨b, hb, hbegun, c, hc, hlasts, n, hn, hne, -⟩
    exact ⟨⟨b, hb, hbegun⟩, ⟨c, hc, hlasts⟩, n, hn, hne⟩
  · rintro ⟨⟨b, hb, hbegun⟩, ⟨c, hc, hlasts⟩, n, hn, hne⟩
    exact ⟨b, hb, hbegun, c, hc, hlasts, n, hn, hne, c, rfl⟩

theorem checkStatements_ok : (∃ u, checkStatements lib doc a now = .ok u) ↔ SessionOpen doc a now := by
  unfold checkStatements SessionOpen
  simp only [exists_bind_ok, demand_ok, exists_const, statements_ok, ne_eq, List.length_eq_zero_iff]

theorem nodup_childrenNamed (ns name : Text) : (childrenNamed doc a ns name).Nodup := by
  refine List.Nodup.filter _ (List.Nodup.filter _ (List.nodup_range.map fun i j hij => ?_))
  exact List.singleton_inj.1 (List.append_cancel_left hij)

theorem dropLast_of_mem_childrenNamed {n : NodeId} {ns name : Text} (h : n ∈ childrenNamed doc a ns name) :
    n.dropLast = a := by
  obtain ⟨i, -, rfl⟩ := List.mem_map.1 (List.mem_filter.1 (List.mem_filter.1 h).1).1
  exact List.dropLast_concat

theorem nodup_sidAttributes : (sidAttributes sp doc a).Nodup := by
  refine List.Nodup.filter _ (List.nodup_flatMap.2 ⟨fun st _ => nodup_childrenNamed .., ?_⟩)
  refine (nodup_childrenNamed ..).imp fun hne n hn hn' => hne ?_
  rw [← dropLast_of_mem_childrenNamed hn, dropLast_of_mem_childrenNamed hn']

theorem sidAttributes_eq_singleton {n : NodeId} :
    sidAttributes sp doc a = [n] ↔ ∀ m, IsSidAttribute sp doc a m ↔ m = n := by
  have hmem : ∀ m, m ∈ sidAttributes sp doc a ↔ IsSidAttribute sp doc a m := by
    intro m
    simp only [sidAttributes, IsSidAttribute, List.mem_filter, List.mem_flatMap, decide_eq_true_eq]
    exact ⟨fun ⟨⟨st, hst, hm⟩, hname⟩ => ⟨st, hst, hm, hname⟩, fun ⟨st, hst, hm, hname⟩ => ⟨⟨st, hst, hm⟩, hname⟩⟩
  constructor
  · intro h m
    rw [← hmem, h, List.mem_singleton]
  · intro h
    refine List.perm_singleton.1 ((List.perm_ext_iff_of_nodup nodup_sidAttributes (List.nodup_singleton _)).2
      fun m => ?_)
    rw [hmem, h, List.mem_singleton]

theorem checkSid_eq_ok {sid : Text} :
    checkSid lib sp doc a = .ok sid ↔ ∃ raw, StatesSid sp doc a raw ∧ canonicalSid raw = some sid := by
  unfold checkSid
  constructor
  · intro h
    split at h
    · rename_i sidAttr hattr
      split at h
      · rename_i value hvalue
        obtain ⟨raw, hraw, h⟩ := bind_ok h
        split at h
        · rename_i c hsid
          cases h
          exact ⟨raw, ⟨sidAttr, value, sidAttributes_eq_singleton.1 hattr, hvalue, text_ok.1 hraw⟩, hsid⟩
        · cases h
      · cases h
    · cases h
  · rintro ⟨raw, ⟨sidAttr, value, hattr, hvalue, hraw⟩, hsid⟩
    simp only [sidAttributes_eq_singleton.2 hattr, hvalue]
    refine bind_ok_iff.2 ⟨raw, text_ok.2 hraw, ?_⟩
    rw [hsid]
    rfl

theorem checkSid_ok :
    (∃ sid, checkSid lib sp doc a = .ok sid) ↔ ∃ raw, StatesSid sp doc a raw ∧ (canonicalSid raw).isSome := by
  simp only [checkSid_eq_ok, Option.isSome_iff_exists]
  exact ⟨fun ⟨sid, raw, hraw, hsid⟩ => ⟨raw, hraw, sid, hsid⟩, fun ⟨raw, hraw, sid, hsid⟩ => ⟨sid, raw, hraw, hsid⟩⟩

end Check

/-- The checks accept an assertion just if it is as they ask. -/
theorem check_assertion_exact {Key : Type} (lib : Libraries Key) (sp : ServiceProvider) (doc : Document) (a : NodeId)
    (requestId : Text) (now : Int) :
    (∃ r, checkAssertion lib sp doc a requestId now = .ok r) ↔ Acceptable sp doc a requestId now := by
  unfold checkAssertion
  simp only [exists_bind_ok, demand_ok, requiredChild_ok_iff, text_ok, timeAttr_ok, exists_const]
  constructor
  · rintro ⟨hversion, hid, issuer, hissuer, name, hname, rfl, time, htime, h⟩
    cases time with
    | none =>
      obtain ⟨_, h⟩ := h
      cases h
    | some t =>
      simp only [exists_bind_ok, demand_ok, exists_const] at h
      obtain ⟨hissued, subject, hsubject, until?, hconditions, u, hstatements, sid, hsid, -⟩ := h
      refine ⟨hversion, ?_, ⟨issuer, hissuer, hname⟩, ⟨t, htime, hissued⟩, checkSubject_ok.1 ⟨subject, hsubject⟩,
        checkConditions_ok.1 ⟨until?, hconditions⟩, checkStatements_ok.1 ⟨u, hstatements⟩, checkSid_ok.1 ⟨sid, hsid⟩⟩
      cases hattr : attr doc a "ID" with
      | none => exact absurd (by rw [hattr]; rfl) hid
      | some id =>
        rw [hattr] at hid
        exact ⟨id, rfl, hid⟩
  · rintro ⟨hversion, ⟨id, hid, hne⟩, ⟨issuer, hissuer, hname⟩, ⟨t, htime, hissued⟩, hsubject, hconditions,
      hstatements, hsid⟩
    have hsubject : ∃ r, checkSubject lib sp doc a requestId now = .ok r := checkSubject_ok.2 hsubject
    have hconditions : ∃ r, checkConditions lib sp doc a now = .ok r := checkConditions_ok.2 hconditions
    have hstatements : ∃ u, checkStatements lib doc a now = .ok u := checkStatements_ok.2 hstatements
    have hsid : ∃ sid, checkSid lib sp doc a = .ok sid := checkSid_ok.2 hsid
    obtain ⟨subject, hsubject⟩ := hsubject
    obtain ⟨until?, hconditions⟩ := hconditions
    obtain ⟨u, hstatements⟩ := hstatements
    obtain ⟨sid, hsid⟩ := hsid
    refine ⟨hversion, by rw [hid]; exact hne, issuer, hissuer, _, hname, rfl, some t, htime, ?_⟩
    simp only [exists_bind_ok, demand_ok, exists_const]
    exact ⟨hissued, subject, hsubject, until?, hconditions, u, hstatements, sid, hsid, _, rfl⟩

/-- The assertion of the sample response is accepted for its request. -/
theorem check_assertion_exact_sample : Acceptable sampleProvider
    (sampleResponse "_1" "a" [("_1", "1970-01-01T00:05:00Z")]) [0, 1] "_1" 0 := by
  have haccepted : (checkAssertion sampleLibraries sampleProvider
      (sampleResponse "_1" "a" [("_1", "1970-01-01T00:05:00Z")]) [0, 1] "_1" 0).isOk = true := by decide +kernel
  refine (check_assertion_exact sampleLibraries ..).1 ?_
  generalize checkAssertion .. = checked at haccepted ⊢
  cases checked with
  | error e => cases haccepted
  | ok r => exact ⟨r, rfl⟩

end WebAccess.Saml
