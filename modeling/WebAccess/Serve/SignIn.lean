/-
Signing in (`web.rs`, `sso.rs`): a password checked against the hash of a local account or by the
directory, or an account an identity provider vouched for and the directory knows. What the check
decided is written in three steps of the store: the account's row is found, renamed or created; the
row is bound to the account's SID; a session is created for the row.
-/
import WebAccess.Serve.Handlers

namespace WebAccess

open Codec Wire Process

/-- `start_session`, with the hash of the random token. -/
def startSession (user : User) (tokenHash : Bytes) : Prog Api (ApiResult Unit) := do
  let lasts ← ask .signinSecs
  let now ← ask .now
  match ← ask (.sessionCreate tokenHash user.id user.incarnation (now + lasts)) with
  | .error e => pure (.error (.ofStore e))
  | .ok false => pure (.error .refused)
  | .ok true => pure (.ok ())

def sidMismatch (user : User) : Prog Api (ApiResult User) := do
  ask (.userFlagMismatch user.id)
  pure (.error .mismatch)

/-- `finish_directory` once it has the row: the row is bound to the account. -/
def bindAccount (account : Account) (user : User) : Prog Api (ApiResult User) :=
  if user.isLocal then pure (.error .refused)
  else if user.sid.any (· != account.sid) then sidMismatch user
  else do
    if ← ask (.userRecordLogin user.id user.incarnation account.sid account.displayName) then pure (.ok user)
    else do
      let current ← ask (.userById user.id)
      let bound := (current.filter (·.incarnation == user.incarnation)).bind User.sid
      if bound.any (· != account.sid) then sidMismatch user else pure (.error .refused)

def finishDirectory (account : Account) : Prog Api (ApiResult User) := do
  match ← ask (.userByName account.username) with
  | some user => bindAccount account user
  | none => do
    match ← ask (.directoryUserBySid account.sid) with
    | some old => do
      if ← ask (.userRename old.id old.incarnation account.sid account.username) then do
        let current ← ask (.userById old.id)
        match current.filter (·.incarnation == old.incarnation) with
        | some user => bindAccount account user
        | none => pure (.error .refused)
      else pure (.error .refused)
    | none => do
      match ← ask (.userCreateReturning account.username account.displayName) with
      | .ok user => bindAccount account user
      | .error e => pure (.error (.ofStore e))

/-- `finish_local`; `random` is what a row without a SID gets. -/
def finishLocal (userId incarnation : Int) (hash random : Text) : Prog Api (ApiResult User) := do
  let found ← ask (.userById userId)
  let current ← ask (.localHash userId)
  match found.filter fun u => u.isLocal && u.incarnation == incarnation with
  | none => pure (.error .refused)
  | some user =>
    if current == some hash then do
      let sid := user.sid.getD ("local:" ++ random)
      if ← ask (.userRecordLogin user.id user.incarnation sid none) then pure (.ok user)
      else pure (.error .refused)
    else pure (.error .refused)

/-- What is written of a sign-in whose row is known: the session, in the database the check was
made against. -/
def signedIn (user : User) (tokenHash : Bytes) (last : Prog Api (ApiResult Unit)) : Prog Api (ApiResult Unit) := do
  match ← startSession user tokenHash with
  | .error e => pure (.error e)
  | .ok () => do
    ask .sessionsPurge
    last

/-- The end of `login`: the row is read again for the answer. -/
def readBack (user : User) : Prog Api (ApiResult Unit) := do
  match ← ask (.userById user.id) with
  | none => pure (.error .notFound)
  | some _ => pure (.ok ())

/-- What `login` reads in its first hold: the row and the hash of a local account of that name. -/
def loginReads (username : Text) : Prog Api (Nat × Option (User × Text)) := do
  let found ← ask (.userByName username)
  match found.filter User.isLocal with
  | some row => do
    let hash ← ask (.localHash row.id)
    let generation ← ask .generation
    pure (generation, some (row, hash.getD []))
  | none => do
    let generation ← ask .generation
    pure (generation, none)

/-- `Checked`: how the check of a password came out. -/
inductive Checked
  | refused
  | isLocal (userId incarnation : Int) (hash : Text)
  | directory (account : Account)

/-- `check_local` and `check_directory`, given whether the password matches a hash and what the
directory says of it. -/
def checked (verify : Text → Bool) (account : Option Account) : Option (User × Text) → Checked
  | some (row, hash) => if verify hash then .isLocal row.id row.incarnation hash else .refused
  | none => match account with
    | none => .refused
    | some account => .directory account

/-- The row a checked sign-in comes out at; `random` is for a local row without a SID. -/
def finish (random : Text) : Checked → Prog Api (ApiResult User)
  | .refused => pure (.error .refused)
  | .isLocal userId incarnation hash => finishLocal userId incarnation hash random
  | .directory account => finishDirectory account

/-- What a sign-in writes in its second hold, in the database the check was made against. -/
def loginWrites (generation : Nat) (finished : Prog Api (ApiResult User)) (tokenHash : Bytes)
    (last : User → Prog Api (ApiResult Unit)) : Prog Api (ApiResult Unit) := do
  let current ← ask .generation
  if current == generation then do
    match ← finished with
    | .error e => pure (.error e)
    | .ok user => signedIn user tokenHash (last user)
  else pure (.error .replaced)

/-- `login`, given whether the password matches a hash and what the directory says of it. -/
def login (username : Text) (verify : Text → Bool) (account : Option Account) (tokenHash : Bytes) (random : Text) :
    Prog Api (ApiResult Unit) := do
  let (generation, found) ← holding .shared (loginReads username)
  holding .shared (loginWrites generation (finish random (checked verify account found)) tokenHash readBack)

/-- What `sso::sign_in` reads in its first hold. -/
def ssoReads : Prog Api (Nat × Except VaultError (Option Text)) := do
  let generation ← ask .generation
  let password ← Vault.directoryPassword .service
  pure (generation, password)

/-- `sso::sign_in`, given the account the directory has under the SID vouched for. -/
def ssoSignIn (account : Account) (tokenHash : Bytes) : Prog Api (ApiResult Unit) := do
  match ← holding .shared ssoReads with
  | (_, .error e) => pure (.error (.ofVault e))
  | (_, .ok none) =>
    pure (.error ⟨503, "the directory service account's password is not set; an administrator sets it on " ++
      "the Migration page"⟩)
  | (generation, .ok (some _)) =>
    if account.disabled || account.expired then
      pure (.error ⟨403, "the directory account with SID " ++ account.sid ++ " is disabled or expired"⟩)
    else holding .shared (loginWrites generation (finishDirectory account) tokenHash fun _ => pure (.ok ()))

end WebAccess
