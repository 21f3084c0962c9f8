/-
Accounts in the directory (`directory.rs`): the service account binds, an account is searched for by its name or by
its SID, and what the directory answers is read. A single sign-on takes the account with the SID the identity provider
sent, and its answer is checked: the SID the directory has must be the one that was asked for.
-/
import WebAccess.Saml.Assertion
import WebAccess.Saml.Sids
import WebAccess.Serve.Handlers
import WebAccess.Serve.Names

namespace WebAccess.Ldap

open Codec Wire Saml

/-! ## What the directory says -/

/-- `Refusal`: why the directory refuses an account -/
inductive Refusal
  | passwordMustChange
  | locked
  | restricted
  | disabled
  | expired
  deriving DecidableEq

/-- `proves_password`: the directory says this of an account whose password was right -/
def Refusal.provesPassword (r : Refusal) : Bool := r != .locked

/-- `DirError` -/
inductive DirError
  | invalidCredentials
  | refused (r : Refusal)
  | otherDomain (account : Text)
  | unreachable (why : Text)
  | protocol (why : Text)
  | config (why : Text)

/-- `str::split_once`, by a text -/
def splitAtText (pattern : Text) : Text → Option (Text × Text)
  | [] => if pattern = [] then some ([], []) else none
  | c :: rest =>
    if pattern.isPrefixOf (c :: rest) then some ([], (c :: rest).drop pattern.length)
    else (splitAtText pattern rest).map fun p => (c :: p.1, p.2)

/-- `refusal_in`: the reason in `... data 775, ...` -/
def refusalIn (text : Text) : Option Refusal := do
  let (_, rest) ← splitAtText "data " text
  let second := ((splitAtText "data " rest).map Prod.fst).getD rest
  let code := (second.takeWhile fun c => c != ',' && c != ' ').map Char.toLower
  if code = "532" ∨ code = "773" then some .passwordMustChange
  else if code = "775" then some .locked
  else if code = "530" ∨ code = "531" then some .restricted
  else if code = "533" then some .disabled
  else if code = "701" then some .expired
  else none

def Refusal.code : Refusal → Text
  | passwordMustChange => "532/773"
  | locked => "775"
  | restricted => "530/531"
  | disabled => "533"
  | expired => "701"

def Refusal.text : Refusal → Text
  | passwordMustChange =>
    "the password has expired or must be changed; change it at a Windows sign-in, then sign in here"
  | locked => "the account is locked; try again later or ask the helpdesk to unlock it"
  | restricted => "the account may not sign in at this time or from here"
  | disabled => "the account is disabled"
  | expired => "the account has expired"

/-- `SearchEntry`: the attributes that are text and those that are not. -/
structure SearchEntry where
  attrs : List (Text × List Text) := []
  binAttrs : List (Text × List Bytes) := []

/-- What the domain controllers answer during a lookup: whether one is reached, the code and the text of a bind, and
the entries a filter finds under a base. -/
structure Server where
  connect : Except Text Unit
  simpleBind : Text → Text → Except Text (Nat × Text)
  search : Text → Text → Except Text (List SearchEntry)

/-- `DirectoryConfig` -/
structure Config where
  domain : Text
  netbios : Option Text := none
  serviceAccount : Option Text := none
  baseDn : Option Text := none

def baseDnFor (domain : Text) : Text :=
  [','].intercalate (((domain.splitOn '.').filter (· != [])).map fun p => "DC=" ++ p)

def bindName (cfg : Config) (username : Text) : Text :=
  match cfg.netbios with
  | some nb => nb ++ '\\' :: username
  | none => username ++ '@' :: cfg.domain

/-- `expired`: 100 ns ticks since 1601; zero and the largest number mean never. -/
def isExpired (accountExpires : Option Int) (now : Int) : Bool :=
  match accountExpires with
  | none => false
  | some ticks =>
    if ticks = 0 ∨ ticks = 2 ^ 63 - 1 then false else decide (ticks.tdiv 10000000 - 11644473600 ≤ now)

/-- `UAC_ACCOUNT_DISABLE`, in the two's complement of a 64-bit number -/
def isDisabled (uac : Int) : Bool := uac / 2 % 2 != 0

/-! ## Lookups -/

section Lookups

variable (low : Lowercase) (cfg : Config) (server : Server) (now : Int)

def bind (name password : Text) : Except DirError Unit :=
  if password = [] then .error .invalidCredentials
  else
    match server.simpleBind name password with
    | .error e => .error (.protocol e)
    | .ok (0, _) => .ok ()
    | .ok (49, text) =>
      match refusalIn text with
      | some r => .error (.refused r)
      | none => .error .invalidCredentials
    | .ok (rc, text) => .error (.protocol ("bind returned " ++ number rc ++ ": " ++ text))

/-- What `find_by` reads of the one entry. -/
def account (entry : SearchEntry) (username : Text) : Except DirError Account :=
  let first (name : Text) : Option Text := (entry.attrs.lookup name).bind List.head?
  match ((entry.binAttrs.lookup "objectSid".toList).bind List.head?).bind sidToString with
  | none => .error (.protocol "the account has no readable objectSid")
  | some sid =>
    let uac := ((first "userAccountControl").bind parseI64).getD 0
    let expires := (first "accountExpires").bind parseI64
    .ok {
      username := ((first "sAMAccountName").map low.lower).getD username
      displayName := first "displayName"
      sid
      disabled := isDisabled uac
      expired := isExpired expires now }

def findBy (filter username : Text) : Except DirError (Option Account) :=
  match server.search (cfg.baseDn.getD (baseDnFor cfg.domain)) filter with
  | .error e => .error (.protocol e)
  | .ok [] => .ok none
  | .ok [entry] => some <$> account low now entry username
  | .ok entries => .error (.protocol ("the directory returned " ++ number entries.length ++
      " accounts for one name"))

def escapeFilter (value : Text) : Text :=
  value.flatMap fun c =>
    if c = '*' then "\\2a"
    else if c = '(' then "\\28"
    else if c = ')' then "\\29"
    else if c = '\\' then "\\5c"
    else if c = Char.ofNat 0 then "\\00"
    else [c]

def find (username : Text) : Except DirError (Option Account) :=
  findBy low cfg server now ("(&(objectCategory=person)(objectClass=user)(sAMAccountName=" ++
    escapeFilter username ++
    "))") username

/-- The filter for the escaped bytes of a SID. -/
def sidSearch (value : Text) : Text :=
  "(&(objectCategory=person)(objectClass=user)(objectSid=" ++ value ++ "))"

def findSid (sid username : Text) : Except DirError (Option Account) :=
  match sidFilter sid with
  | none => .error (.protocol (sid ++ " is not a SID"))
  | some value => findBy low cfg server now (sidSearch value) username

def serviceError : DirError → DirError
  | .invalidCredentials => .config "the service account's password was refused"
  | .refused r => .config ("the service account was refused: " ++ r.text ++ " (data " ++
    r.code ++ ")")
  | e => e

/-- `lookup_each`: an account with a SID is found by it, one without by name. -/
def lookupEach (password : Text) (accounts : List (Text × Option Text)) :
    Except DirError (List (Text × Except DirError (Option Account))) :=
  match cfg.serviceAccount.bind (normalizeUsername low) with
  | none => .error (.config "no service_account configured")
  | some service => do
    server.connect.mapError .unreachable
    (bind server (bindName cfg service) password).mapError serviceError
    pure (accounts.map fun (name, sid) => (name, match sid with
      | some sid => findSid low cfg server now sid name
      | none => find low cfg server now name))

def lookupBySid (password sid : Text) : Except DirError (Option Account) :=
  match canonicalSid sid with
  | none => .error (.protocol (sid ++ " is not a SID"))
  | some wanted => do
    let each ← lookupEach low cfg server now password [(wanted, some wanted)]
    let found ← (each.getLast?.map Prod.snd).getD (.ok none)
    match found with
    | some account =>
      if account.sid = wanted then pure (some account)
      else .error (.protocol ("asked for " ++ wanted ++ ", the directory answered " ++ account.sid))
    | none => pure none

end Lookups

/-! ## The account of a single sign-on -/

section SignOn

variable {low : Lowercase} {cfg : Config} {server : Server} {now : Int} {sid username password : Text} {found : Account}

/-- The account is what is read of the one entry the directory has for a SID under its base, and the `objectSid` of
that entry is these bytes. -/
structure ReadFrom (low : Lowercase) (cfg : Config) (server : Server) (now : Int) (sid : Text) (found : Account)
    (b : Bytes) : Prop where
  entry : ∃ entry value, sidFilter sid = some value ∧
    server.search (cfg.baseDn.getD (baseDnFor cfg.domain)) (sidSearch value) = .ok [entry] ∧
    account low now entry sid = .ok found ∧ (entry.binAttrs.lookup "objectSid".toList).bind List.head? = some b
  text : sidToString b = some found.sid

theorem account_sid {entry : SearchEntry} (h : account low now entry username = .ok found) :
    ∃ b, (entry.binAttrs.lookup "objectSid".toList).bind List.head? = some b ∧ sidToString b = some found.sid := by
  unfold account at h
  dsimp only at h
  split at h
  · cases h
  · rename_i text hsid
    obtain ⟨b, hb, htext⟩ := Option.bind_eq_some_iff.1 hsid
    cases h
    exact ⟨b, hb, htext⟩

theorem findSid_some (h : findSid low cfg server now sid sid = .ok (some found)) :
    ∃ b, ReadFrom low cfg server now sid found b := by
  unfold findSid at h
  split at h
  · cases h
  rename_i value hvalue
  unfold findBy at h
  split at h
  · cases h
  · cases h
  · rename_i entry hsearch
    cases haccount : account low now entry sid with
    | error e =>
      rw [haccount] at h
      cases h
    | ok answer =>
      rw [haccount] at h
      cases h
      obtain ⟨b, hb, htext⟩ := account_sid haccount
      exact ⟨b, ⟨entry, value, hvalue, hsearch, haccount, hb⟩, htext⟩
  · cases h

/-- The account of a lookup is read from the entry whose `objectSid` is denoted by the SID. -/
theorem lookupBySid_some (hcanonical : canonicalSid sid = some sid)
    (h : lookupBySid low cfg server now password sid = .ok (some found)) :
    ∃ b, ReadFrom low cfg server now sid found b ∧ denoted sid = some b := by
  unfold lookupBySid at h
  rw [hcanonical] at h
  obtain ⟨each, heach, h⟩ := bind_ok h
  obtain ⟨answer, hanswer, h⟩ := bind_ok h
  unfold lookupEach at heach
  split at heach
  · cases heach
  · obtain ⟨-, -, heach⟩ := bind_ok heach
    obtain ⟨-, -, heach⟩ := bind_ok heach
    cases heach
    cases answer with
    | none => cases h
    | some answer =>
      dsimp only at h
      split at h
      · rename_i hsid
        cases h
        -- the one account asked for is the one answered
        change findSid low cfg server now sid sid = .ok (some found) at hanswer
        obtain ⟨b, hread⟩ := findSid_some hanswer
        exact ⟨b, hread, denoted_of_sidToString hcanonical (hsid ▸ hread.text)⟩
      · cases h

end SignOn

/-- SIDs compare as the directory compares them. Bytes to text and back are the same bytes, and so are they in a search
filter; canonical forms are the same where the bytes denoted are; the canonical form is its own; and the account of a
single sign-on is read from the entry of the directory whose `objectSid` is the bytes that the SID in the assertion
denotes. -/
theorem sids_compare_as_bytes :
    (∀ b : Bytes, WellFormed b →
      ∃ t, sidToString b = some t ∧ sidBytes t = some b ∧ (sidFilter t).bind filterValue = some b) ∧
    (∀ a b : Text, (canonicalSid a = canonicalSid b ↔ denoted a = denoted b) ∧
      ((∃ c, canonicalSid a = some c ∧ canonicalSid b = some c) ↔ ∃ bytes, denoted a = some bytes ∧
        denoted b = some bytes)) ∧
    (∀ a c : Text, canonicalSid a = some c → canonicalSid c = some c) ∧
    ∀ (Key : Type) (lib : Libraries Key) (sp : ServiceProvider) (doc : Document) (a : NodeId) (sid : Text),
      checkSid lib sp doc a = .ok sid →
      ∃ raw, StatesSid sp doc a raw ∧
        ∀ (low : Lowercase) (cfg : Config) (server : Server) (now : Int) (password : Text) (found : Account),
          lookupBySid low cfg server now password sid = .ok (some found) →
          ∃ b, ReadFrom low cfg server now sid found b ∧ denoted raw = some b := by
  refine ⟨fun b hb => ?_, fun a b => ⟨canonicalSid_eq_iff, ?_⟩, fun a c h => (canonicalSid_canonical h).1,
    fun _ lib sp doc a sid h => ?_⟩
  · obtain ⟨s, husual, rfl⟩ := usual_of_wellFormed hb
    refine ⟨s.text, sidToString_bytes s, sidBytes_text husual, ?_⟩
    rw [sidFilter, sidBytes_text husual, Option.map_some, Option.bind_some, filterValue_escaped]
  · constructor
    · rintro ⟨c, ha, hb⟩
      obtain ⟨s, -, hs, -⟩ := canonicalSid_eq_some.1 ha
      exact ⟨s.bytes, hs, (canonicalSid_eq_iff.1 (ha.trans hb.symm)) ▸ hs⟩
    · rintro ⟨bytes, ha, hb⟩
      obtain ⟨s, -, -, rfl⟩ := denoted_eq_some.1 ha
      exact ⟨s.text, canonicalSid_of_denoted ha, canonicalSid_of_denoted hb⟩
  · obtain ⟨raw, hraw, hsid⟩ := checkSid_eq_ok.1 h
    refine ⟨raw, hraw, fun low cfg server now password found hfound => ?_⟩
    obtain ⟨b, hb, hdenoted⟩ := lookupBySid_some (canonicalSid_canonical hsid).1 hfound
    exact ⟨b, hb, (canonicalSid_canonical hsid).2.symm.trans hdenoted⟩

/-- The bytes of `S-1-5-21`. -/
def sampleSid : Bytes := [1, 1, 0, 0, 0, 0, 0, 5, 21, 0, 0, 0]

/-- A directory with one account, which has this SID. -/
def oneEntry : Server where
  connect := .ok ()
  simpleBind _ _ := .ok (0, [])
  search _ _ := .ok [{ binAttrs := [("objectSid", [sampleSid])] }]

def oneConfig : Config := { domain := ['d'], serviceAccount := some ['s'] }

/-- The SID goes to text and back, and its account is found for an assertion that states it. -/
theorem sids_compare_as_bytes_signOn : WellFormed sampleSid ∧
    (∃ t, sidToString sampleSid = some t ∧ sidBytes t = some sampleSid ∧
      (sidFilter t).bind filterValue = some sampleSid) ∧
    ∃ raw found b, StatesSid sampleProvider (sampleResponse "_1" "a" []) [0, 1] raw ∧
      lookupBySid dottedLower oneConfig oneEntry 0 ['p'] "S-1-5-21" = .ok (some found) ∧
      ReadFrom dottedLower oneConfig oneEntry 0 "S-1-5-21" found b ∧ denoted raw = some b := by
  have hsid : checkSid sampleLibraries sampleProvider (sampleResponse "_1" "a" []) [0, 1] = .ok "S-1-5-21" := by
    decide +kernel
  have hfound : lookupBySid dottedLower oneConfig oneEntry 0 ['p'] "S-1-5-21" =
      .ok (some ⟨"S-1-5-21".toList, none, "S-1-5-21".toList, false, false⟩) := by rfl
  obtain ⟨raw, hraw, hfinds⟩ := sids_compare_as_bytes.2.2.2 _ _ _ _ _ _ hsid
  obtain ⟨b, hread, hdenoted⟩ := hfinds _ _ _ _ _ _ hfound
  exact ⟨by decide, sids_compare_as_bytes.1 _ (by decide), raw, _, b, hraw, hfound, hread, hdenoted⟩

end WebAccess.Ldap
