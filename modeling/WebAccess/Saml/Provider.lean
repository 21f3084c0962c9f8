/-
`ServiceProvider` of `saml.rs`: the flow cookie, the checks a response goes through, and the table of
spent ids. `accept` is in two parts, as it runs: the checks, which read nothing that changes, and what is
done under the lock of the table.

What the proxy calls and does not define is in `Libraries`: base64, the XML parser, the key loader, the
signature library and the keyed hash.
-/
import WebAccess.Saml.Reading

namespace WebAccess.Saml

open Wire Codec Document

/-! ## Names -/

def nsAssertion : Text := "urn:oasis:names:tc:SAML:2.0:assertion"
def nsProtocol : Text := "urn:oasis:names:tc:SAML:2.0:protocol"
def nsDsig : Text := "http://www.w3.org/2000/09/xmldsig#"
def bindingPost : Text := "urn:oasis:names:tc:SAML:2.0:bindings:HTTP-POST"
def statusSuccess : Text := "urn:oasis:names:tc:SAML:2.0:status:Success"
def bearer : Text := "urn:oasis:names:tc:SAML:2.0:cm:bearer"
def excC14n : Text := "http://www.w3.org/2001/10/xml-exc-c14n#"
def enveloped : Text := "http://www.w3.org/2000/09/xmldsig#enveloped-signature"

def signatureMethods : List Text :=
  ["http://www.w3.org/2001/04/xmldsig-more#rsa-sha256",
    "http://www.w3.org/2001/04/xmldsig-more#rsa-sha384",
    "http://www.w3.org/2001/04/xmldsig-more#rsa-sha512"]

def digestMethods : List Text :=
  ["http://www.w3.org/2001/04/xmlenc#sha256",
    "http://www.w3.org/2001/04/xmldsig-more#sha384",
    "http://www.w3.org/2001/04/xmlenc#sha512"]

def flowSecs : Int := 300

def maxSpent : Nat := 100000

def maxResponseBytes : Nat := 2 ^ 20

/-! ## The libraries -/

/-- `VerifiedReference` of `bergshamra-dsig` -/
structure VerifiedReference where
  uri : Text
  resolvedNode : Option NodeId
  digestVerified : Bool

/-- `VerifyResult`; what is told of the key is not read. -/
inductive VerifyResult
  | valid (signatureNode : NodeId) (references : List VerifiedReference)
  | invalid (reason : String)

def VerifyResult.allReferenceDigestsVerified : VerifyResult → Bool
  | valid _ references => !references.isEmpty && references.all (·.digestVerified)
  | invalid _ => false

/-- What the service provider calls. `Key` is a key of the signature library. -/
structure Libraries (Key : Type) where
  /-- `STANDARD.decode` -/
  decode : Text → Option Bytes
  /-- `String::from_utf8` -/
  fromUtf8 : Bytes → Option Text
  /-- `parse`: no DTD, bounded depth -/
  parse : Text → Except String Document
  /-- `load_x509_cert_der` -/
  loadCert : Bytes → Except String Key
  /-- `verify_all_document`, with the one key in the context -/
  verifyAll : Key → Document → Except String (List VerifyResult)
  /-- `hmac::sign`, under the flow key -/
  hmac : Text → Bytes
  /-- the request deflated and in base64, as one `SAMLRequest` pair of a query -/
  query : Text → Text
  /-- `{:?}` of a string -/
  debug : Text → String

structure Idp where
  entityId : Text
  ssoUrl : Text
  certs : List Bytes

structure Verified where
  sid : Text
  nameId : Option Text
  deriving DecidableEq

/-- `ServiceProvider`, without the table of spent ids and the flow key. `SamlConfig::check` bounds the skew by five
minutes, so that no sum of it and a time overflows. -/
structure ServiceProvider where
  idp : Idp
  entityId : Text
  acsUrl : Text
  sidAttribute : Text
  skew : Nat

/-! ## The flow cookie -/

/-- What the keyed hash of a flow cookie is over. -/
def signedFlow (id : Text) (expires : Int) : Text := id ++ '.' :: number expires

theorem signedFlow_inj {id id' : Text} {expires expires' : Int} (h : signedFlow id expires = signedFlow id' expires') :
    id = id' ∧ expires = expires' := by
  obtain ⟨hid, hnumber⟩ := append_dot_inj (dot_not_mem_number expires) (dot_not_mem_number expires') h
  exact ⟨hid, number_injective hnumber⟩

def lost : String :=
  "this browser did not start the sign-in, or took longer than five minutes; start it again from this proxy's page"

/-- The parts of a flow cookie: the id, the time it expires at and the hash, from the right. -/
def flowParts (flow : Text) : Option (Text × Int × Bytes) := do
  let (rest, mac) ← rsplitOnce '.' flow
  let (id, expires) ← rsplitOnce '.' rest
  let expires ← parseI64 expires
  let tag ← hexBytes mac
  pure (id, expires, tag)

variable {Key : Type} (lib : Libraries Key) (sp : ServiceProvider)

/-- `flow_request`: the request id a flow cookie was issued for, while it is current -/
def flowRequest (flow : Option Text) (now : Int) : Except SamlError Text :=
  match flow.bind flowParts with
  | none => refuse lost
  | some (id, expires, tag) =>
    if lib.hmac (signedFlow id expires) ≠ tag ∨ expires ≤ now then refuse lost else .ok id

def xmlEscape (t : Text) : Text :=
  t.flatMap fun c =>
    if c = '&' then "&amp;"
    else if c = '<' then "&lt;"
    else if c = '>' then "&gt;"
    else if c = '"' then "&quot;"
    else if c.toNat = 39 then "&apos;"
    else [c]

/-- The `AuthnRequest` of a sign-in. -/
def authnRequest (id : Text) (now : Int) : Text :=
  "<samlp:AuthnRequest xmlns:samlp=\"" ++ nsProtocol ++ "\" xmlns:saml=\"" ++ nsAssertion ++
    "\" ID=\"" ++ id ++ "\" Version=\"2.0\" IssueInstant=\"" ++ instant now ++
    "\" Destination=\"" ++ xmlEscape sp.idp.ssoUrl ++ "\" AssertionConsumerServiceURL=\"" ++
    xmlEscape sp.acsUrl ++ "\" ProtocolBinding=\"" ++ bindingPost ++ "\"><saml:Issuer>" ++
    xmlEscape sp.entityId ++ "</saml:Issuer></samlp:AuthnRequest>"

/-- `flow_mac`, and the flow cookie it ends -/
def flowCookie (id : Text) (expires : Int) : Text :=
  signedFlow id expires ++ '.' :: hexText (lib.hmac (signedFlow id expires))

/-- `start`: where to send the browser, and the flow cookie; `token` is what `random_token` draws. -/
def start (token : Text) (now : Int) : Text × Text :=
  let id := '_' :: token.take 40
  (sp.idp.ssoUrl ++ (if '?' ∈ sp.idp.ssoUrl then '&' else '?') :: lib.query (authnRequest sp id now),
    flowCookie lib id (now + flowSecs))

/-! ## Signatures -/

def shape : String := "a signature has a form this proxy does not accept"

/-- The closure `algorithm` of `check_signature_shape` -/
def algorithm (doc : Document) (id : NodeId) : Text := (attr doc id "Algorithm").getD []

/-- What the loop over `SignedInfo` has counted. -/
structure InfoParts where
  c14n : Nat
  method : Nat
  references : List NodeId

/-- One child of `SignedInfo`. -/
def infoPart (doc : Document) (parts : InfoParts) (c : NodeId) : Except SamlError InfoParts :=
  if is doc c nsDsig "CanonicalizationMethod" && algorithm doc c = excC14n then
    .ok { parts with c14n := parts.c14n + 1 }
  else if is doc c nsDsig "SignatureMethod" && algorithm doc c ∈ signatureMethods &&
      (childElements doc c).isEmpty then
    .ok { parts with method := parts.method + 1 }
  else if is doc c nsDsig "Reference" then .ok { parts with references := parts.references ++ [c] }
  else refuse shape

/-- What the loop over the `Reference` has found. -/
structure ReferenceParts where
  transforms : Option NodeId
  digest : Nat
  value : Nat

/-- One child of the `Reference`. -/
def referencePart (doc : Document) (parts : ReferenceParts) (c : NodeId) : Except SamlError ReferenceParts :=
  if is doc c nsDsig "Transforms" && parts.transforms.isNone then .ok { parts with transforms := some c }
  else if is doc c nsDsig "DigestMethod" && algorithm doc c ∈ digestMethods &&
      (childElements doc c).isEmpty then
    .ok { parts with digest := parts.digest + 1 }
  else if is doc c nsDsig "DigestValue" then .ok { parts with value := parts.value + 1 }
  else refuse shape

/-- A character of a `#id` reference. -/
def isIdChar (c : Char) : Bool := c.isAlphanum || c == '_' || c == '-' || c == '.'

/-- The closure `transform_ok` -/
def transformOk (doc : Document) (t : NodeId) (alg : Text) : Bool :=
  is doc t nsDsig "Transform" && algorithm doc t = alg

def checkSignatureShape (doc : Document) (sig : NodeId) : Except SamlError Unit := do
  demand (∀ c ∈ childElements doc sig, is doc c nsDsig "SignedInfo" ∨
    is doc c nsDsig "SignatureValue" ∨ is doc c nsDsig "KeyInfo") shape
  let info ← requiredChild doc sig nsDsig "SignedInfo"
  let parts ← (childElements doc info).foldlM (infoPart doc) ⟨0, 0, []⟩
  match parts.references with
  | [reference] => do
    demand (parts.c14n = 1 ∧ parts.method = 1) shape
    let target := (stripFirst '#' ((attr doc reference "URI").getD [])).getD []
    demand (target ≠ [] ∧ target.all isIdChar) shape
    let found ← (childElements doc reference).foldlM (referencePart doc) ⟨none, 0, 0⟩
    match found.transforms with
    | some transforms =>
      match childElements doc transforms with
      | [first, second] =>
        demand (transformOk doc first enveloped ∧ (childElements doc first).isEmpty ∧
          transformOk doc second excC14n ∧ found.digest = 1 ∧ found.value = 1) shape
      | _ => refuse shape
    | none => refuse shape
  | _ => refuse shape

/-- The `Signature` elements of a response, in document order. -/
def signatures (doc : Document) (root : NodeId) : List NodeId :=
  (doc.descendants root).filter fun n => is doc n nsDsig "Signature"

/-- What the loop over the certificates has found: which signatures are valid, and whether the assertion
is covered. -/
structure Verdicts where
  valid : List Bool
  coversAssertion : Bool

/-- One result of the signature library, for the signature with number `i`. -/
def judge (doc : Document) (sigs : List NodeId) (assertion : NodeId) (v : Verdicts) (r : VerifyResult) (i : Nat) :
    Verdicts :=
  match r with
  | .invalid _ => v
  | .valid signatureNode references =>
    if signatureNode ≠ sigs.getD i [] ∨ ¬ r.allReferenceDigestsVerified then v
    else
      match references with
      | [reference] =>
        let signed := doc.parent (sigs.getD i [])
        if reference.resolvedNode ≠ signed then v
        else ⟨v.valid.set i true, v.coversAssertion || signed == some assertion⟩
      | _ => v

/-- One certificate of the identity provider. -/
def judgeCert (doc : Document) (sigs : List NodeId) (assertion : NodeId) (v : Verdicts) (cert : Bytes) :
    Except SamlError Verdicts := do
  let key ← (lib.loadCert cert).mapError fun e => .refused ("a pinned certificate: " ++ e)
  let results ← (lib.verifyAll key doc).mapError fun e => .refused ("the signature cannot be checked: " ++ e)
  demand (results.length = sigs.length) "the signatures found differ from the signatures checked"
  pure (results.zipIdx.foldl (fun v r => judge doc sigs assertion v r.1 r.2) v)

/-- What is asked of one signature before any is verified. -/
def checkPlace (doc : Document) (root assertion s : NodeId) : Except SamlError Unit := do
  checkSignatureShape doc s
  demand (doc.parent s = some root ∨ doc.parent s = some assertion)
    "a signature is somewhere other than the Response or the Assertion"

def checkSignatures (doc : Document) (root assertion : NodeId) : Except SamlError Unit := do
  let sigs := signatures doc root
  demand (sigs ≠ []) "the assertion is not signed"
  sigs.forM (checkPlace doc root assertion)
  let v ← sp.idp.certs.foldlM (judgeCert lib doc sigs assertion) ⟨List.replicate sigs.length false, false⟩
  demand (v.valid.all id) "a signature did not verify against the identity provider's certificates"
  demand v.coversAssertion "the assertion is not signed"

/-! ## The response -/

/-- The closure `short` of `check_status` -/
def short (v : Text) : Text := (v.splitOn ':').getLast?.getD v

def checkStatus (doc : Document) (root : NodeId) : Except SamlError Unit := do
  let status ← requiredChild doc root nsProtocol "Status"
  let code ← requiredChild doc status nsProtocol "StatusCode"
  let value := (attr doc code "Value").getD []
  if value = statusSuccess then pure ()
  else
    let why := match ← oneChild doc code nsProtocol "StatusCode" with
      | some sub => short value ++ '/' :: short ((attr doc sub "Value").getD [])
      | none => short value
    let why ← match ← oneChild doc status nsProtocol "StatusMessage" with
      | some m => do pure (why ++ ": " ++ (← text doc m))
      | none => pure why
    refuse ("the identity provider refused the sign-in (" ++ String.ofList why ++ ")")

/-! ## The assertion -/

/-- `Option::max`, on `Option<i64>`: none is below every time. -/
def later : Option Int → Option Int → Option Int
  | none, u => u
  | some t, none => some t
  | some t, some u => some (max t u)

/-- One `SubjectConfirmation`: how long it confirms the request, added to what was found before it. -/
def confirm (doc : Document) (requestId : Text) (now : Int) (until? : Option Int) (sc : NodeId) :
    Except SamlError (Option Int) :=
  if attr doc sc "Method" ≠ some bearer then .ok until?
  else do
    match ← oneChild doc sc nsAssertion "SubjectConfirmationData" with
    | none => pure until?
    | some data => do
      let notOnOrAfter ← timeAttr doc data lib.debug "NotOnOrAfter"
      if attr doc data "Recipient" = some sp.acsUrl ∧ attr doc data "InResponseTo" = some requestId ∧
          attr doc data "NotBefore" = none ∧ notOnOrAfter.any (fun u => decide (now < u + sp.skew)) then
        pure (later until? notOnOrAfter)
      else pure until?

/-- One `Audience` of a restriction. -/
def audience (doc : Document) (ours : Bool) (au : NodeId) : Except SamlError Bool := do
  let t ← text doc au
  pure (ours || decide (t = sp.entityId))

/-- One condition of the assertion; audience restrictions are counted. -/
def condition (doc : Document) (audiences : Nat) (c : NodeId) : Except SamlError Nat :=
  if is doc c nsAssertion "AudienceRestriction" then do
    let ours ← (childrenNamed doc c nsAssertion "Audience").foldlM (audience sp doc) false
    demand ours ("the assertion is for another relying party, not " ++ String.ofList sp.entityId)
    pure (audiences + 1)
  else do
    demand (is doc c nsAssertion "OneTimeUse" ∨ is doc c nsAssertion "ProxyRestriction")
      "the assertion carries a condition this proxy does not understand"
    pure audiences

/-- The `NameID` of the subject, where it has one. -/
def subjectName (doc : Document) (subject : NodeId) : Except SamlError (Option Text) := do
  match ← oneChild doc subject nsAssertion "NameID" with
  | some n => some <$> text doc n
  | none => pure none

/-- The `Subject`: the name, and the last moment its confirmations of this request hold. -/
def checkSubject (doc : Document) (a : NodeId) (requestId : Text) (now : Int) :
    Except SamlError (Option Text × Int) := do
  let subject ← requiredChild doc a nsAssertion "Subject"
  let nameId ← subjectName doc subject
  let confirmed ← (childrenNamed doc subject nsAssertion "SubjectConfirmation").foldlM
    (confirm lib sp doc requestId now) none
  match confirmed with
  | some confirmedUntil => pure (nameId, confirmedUntil)
  | none => refuse "the assertion is not addressed to this proxy's sign-in, or it has expired"

/-- The `Conditions`: until when they hold, if they say so. -/
def checkConditions (doc : Document) (a : NodeId) (now : Int) : Except SamlError (Option Int) := do
  let conditions ← requiredChild doc a nsAssertion "Conditions"
  let notBefore ← timeAttr doc conditions lib.debug "NotBefore"
  demand (notBefore.all fun t => decide (t ≤ now + sp.skew)) "the assertion is not valid yet; check the clocks"
  let conditionsUntil ← timeAttr doc conditions lib.debug "NotOnOrAfter"
  demand (conditionsUntil.all fun t => decide (now < t + sp.skew)) "the assertion has expired"
  let audiences ← (childElements doc conditions).foldlM (condition sp doc) 0
  demand (audiences ≠ 0) "the assertion names no audience"
  pure conditionsUntil

/-- One `AuthnStatement`. -/
def statement (doc : Document) (now : Int) (_ : Unit) (s : NodeId) : Except SamlError Unit := do
  let ends ← timeAttr doc s lib.debug "SessionNotOnOrAfter"
  demand (ends.all fun t => decide (now < t)) "the identity provider's session has ended; sign in again"

/-- The `AuthnStatement`s. -/
def checkStatements (doc : Document) (a : NodeId) (now : Int) : Except SamlError Unit := do
  let statements := childrenNamed doc a nsAssertion "AuthnStatement"
  demand (statements.length ≠ 0) "the assertion has no AuthnStatement"
  statements.foldlM (statement lib doc now) ()

def sidAttributes (doc : Document) (a : NodeId) : List NodeId :=
  ((childrenNamed doc a nsAssertion "AttributeStatement").flatMap fun st =>
    childrenNamed doc st nsAssertion "Attribute").filter fun at? =>
      attr doc at? "Name" = some sp.sidAttribute

def checkSid (doc : Document) (a : NodeId) : Except SamlError Text := do
  match sidAttributes sp doc a with
  | [sidAttr] =>
    match childrenNamed doc sidAttr nsAssertion "AttributeValue" with
    | [value] => do
      let raw ← text doc value
      match canonicalSid raw with
      | some sid => pure sid
      | none => refuse ("the " ++ String.ofList sp.sidAttribute ++ " attribute holds " ++ lib.debug raw ++
          ", which is not a SID")
    | _ => refuse ("the " ++ String.ofList sp.sidAttribute ++ " attribute must hold one value")
  | _ => refuse ("the assertion must carry the " ++ String.ofList sp.sidAttribute ++ " attribute once")

/-- `check_assertion`: what was verified, the assertion id and the last moment the assertion could be accepted -/
def checkAssertion (doc : Document) (a : NodeId) (requestId : Text) (now : Int) :
    Except SamlError (Verified × Text × Int) := do
  demand (attr doc a "Version" = some "2.0") "the assertion is not SAML 2.0"
  let id := (attr doc a "ID").getD []
  demand (id ≠ []) "the assertion has no ID"
  let issuer ← requiredChild doc a nsAssertion "Issuer"
  let name ← text doc issuer
  demand (name = sp.idp.entityId) "the assertion is from a different identity provider"
  match ← timeAttr doc a lib.debug "IssueInstant" with
  | none => refuse "the assertion has no IssueInstant"
  | some t => do
    demand (t ≤ now + sp.skew) ("the assertion was issued in the future; check the clocks of this proxy and " ++
      "the identity provider")
    let (nameId, confirmedUntil) ← checkSubject lib sp doc a requestId now
    let conditionsUntil ← checkConditions lib sp doc a now
    checkStatements lib doc a now
    let sid ← checkSid lib sp doc a
    let expires := conditionsUntil.elim confirmedUntil fun c => max c confirmedUntil
    pure (⟨sid, nameId⟩, id, expires)

/-! ## Accepting a response -/

/-- `InResponseTo` of the response. -/
def checkAnswers (doc : Document) (root : NodeId) (requestId : Text) : Except SamlError Unit :=
  match attr doc root "InResponseTo" with
  | none => refuse ("the identity provider sent a sign-in this proxy did not ask for; start the sign-in from " ++
      "this proxy's page")
  | some irt => demand (irt = requestId)
      "the response answers a different sign-in than this browser started; start again"

/-- `Destination` and `Issuer` of the response, where it has them. -/
def checkAddressed (doc : Document) (root : NodeId) : Except SamlError Unit := do
  match attr doc root "Destination" with
  | some dest =>
    demand (dest = sp.acsUrl)
      ("the response is addressed to " ++ String.ofList dest ++ ", not " ++ String.ofList sp.acsUrl)
  | none => pure ()
  match ← oneChild doc root nsAssertion "Issuer" with
  | some issuer => do
    let name ← text doc issuer
    demand (name = sp.idp.entityId) "the response is from a different identity provider"
  | none => pure ()

def theAssertion (doc : Document) (root : NodeId) : Except SamlError NodeId := do
  demand (childrenNamed doc root nsAssertion "EncryptedAssertion" = [])
    ("the identity provider encrypted the assertion; ask IT to send it signed and unencrypted to this " ++
      "relying party")
  match childrenNamed doc root nsAssertion "Assertion",
      (doc.descendants root).filter fun n => is doc n nsAssertion "Assertion" with
  | [assertion], [_] => pure assertion
  | _, _ => refuse "the response must carry exactly one assertion"

/-- `MAX_RESPONSE_BYTES / 3 * 4 + 4`: the largest response read, in base64 -/
def maxEncoded : Nat := maxResponseBytes / 3 * 4 + 4

/-- The document that was posted, as `accept` decodes and parses it. -/
def decodeResponse (samlResponse : Text) : Except SamlError Document := do
  let compact := samlResponse.filter fun c => !isAsciiWhitespace c
  demand ((compact.map Char.utf8Size).sum ≤ maxEncoded) "the identity provider's response is too large"
  match lib.decode compact with
  | none => refuse "the identity provider's response is not base64"
  | some bytes =>
    match lib.fromUtf8 bytes with
    | none => refuse "the identity provider's response is not UTF-8"
    | some xml =>
      match lib.parse xml with
      | .error e => refuse ("the identity provider's response is refused: " ++ e)
      | .ok doc => pure doc

def checkDocument (doc : Document) (requestId : Text) (now : Int) : Except SamlError (Verified × Text × Int) := do
  plain doc
  match doc.documentElement with
  | none => refuse "the identity provider's response is empty"
  | some root => do
    demand (is doc root nsProtocol "Response" ∧ attr doc root "Version" = some "2.0")
      "the identity provider did not send a SAML 2.0 Response"
    checkAnswers doc root requestId
    checkAddressed sp doc root
    checkStatus doc root
    let assertion ← theAssertion doc root
    checkSignatures lib sp doc root assertion
    checkAssertion lib sp doc assertion requestId now

/-- A response that passed every check, with the clock it was checked against. -/
structure Passed where
  requestId : Text
  assertionId : Text
  expires : Int
  now : Int
  verified : Verified

/-- `accept` up to the lock. -/
def acceptChecks (samlResponse : Text) (flow : Option Text) (now : Int) : Except SamlError Passed := do
  let requestId ← flowRequest lib flow now
  let doc ← decodeResponse lib samlResponse
  let (verified, assertionId, expires) ← checkDocument lib sp doc requestId now
  pure ⟨requestId, assertionId, expires, now, verified⟩

/-- The table of spent ids: each key with the time it is held until. -/
abbrev Spent := List (Text × Int)

def Spent.containsKey (spent : Spent) (key : Text) : Bool := spent.any fun e => e.1 == key

def Spent.insert (spent : Spent) (key : Text) (until_ : Int) : Spent :=
  (key, until_) :: spent.filter fun e => e.1 != key

def requestKey (id : Text) : Text := "r:" ++ id

def assertionKey (id : Text) : Text := "a:" ++ id

/-- `spent.retain(|_, until| *until > now)` -/
def Spent.retain (spent : Spent) (now : Int) : Spent := spent.filter fun e => decide (now < e.2)

/-- `accept` under the lock. -/
def spend (spent : Spent) (p : Passed) : Except SamlError Verified × Spent :=
  if (spent.retain p.now).containsKey (requestKey p.requestId) ∨
      (spent.retain p.now).containsKey (assertionKey p.assertionId) then
    (refuse "this sign-in was already used; start again", spent.retain p.now)
  else if (spent.retain p.now).length + 2 > maxSpent then
    (refuse "too many sign-ins in the last few minutes; try again shortly", spent.retain p.now)
  else
    (.ok p.verified, ((spent.retain p.now).insert (requestKey p.requestId) (p.now + flowSecs + sp.skew)).insert
      (assertionKey p.assertionId) (max p.expires (p.now + flowSecs) + sp.skew))

/-- `accept`: the checks, and then the request and the assertion are spent. -/
def accept (spent : Spent) (samlResponse : Text) (flow : Option Text) (now : Int) : Except SamlError Verified × Spent :=
  match acceptChecks lib sp samlResponse flow now with
  | .error e => (.error e, spent)
  | .ok p => spend sp spent p

end WebAccess.Saml
