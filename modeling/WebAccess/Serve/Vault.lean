/-
The vault (`vault.rs`, and what `app.rs` does with it): one master key seals every saved password
and the directory's, and is kept twice in the database, wrapped for the host and under the recovery
passphrase. Its functions are programs over the calls of the proxy, since each reads or writes the
database, or the key in memory, in a step of its own. The command-line tools run the same functions
in a process of their own, with a key of their own in memory.
-/
import WebAccess.Serve.Calls

namespace WebAccess

open Codec Wire Process

/-- `String::into_bytes` -/
def utf8 (t : Text) : Bytes := t.flatMap String.utf8EncodeChar

/-- `VaultError`, without the errors of the store and of the random source. -/
inductive VaultError
  | locked
  | wrongPassphrase
  | noRecovery
  | weak
  | crypto

namespace Vault

def minPassphrase : Nat := 12

def aadLocal : Bytes := utf8 "web-access local wrap v1"

def aadRecovery : Bytes := utf8 "web-access recovery wrap v1"

def aadDirectoryPassword : Bytes := utf8 "directory service password"

def credentialAad (sid : Text) (serverId : Int) : Bytes :=
  utf8 ("credential" ++ Char.ofNat 0 :: sid ++ Char.ofNat 0 :: number serverId)

def checkStrength (passphrase : Text) : Except VaultError Unit :=
  if passphrase.length < minPassphrase then .error .weak else .ok ()

def wrapRecovery (key : Key) (passphrase : Text) : Sealed Text Key := ⟨passphrase, aadRecovery, key⟩

def unwrapRecovery (wrapped : Sealed Text Key) (passphrase : Text) : Except VaultError Key :=
  match wrapped.openWith passphrase aadRecovery with
  | none => .error .wrongPassphrase
  | some key => .ok key

def protect (protector : Protector) (key : Key) : Sealed Protector Key := ⟨protector, aadLocal, key⟩

def unprotect (protector : Protector) (wrapped : Sealed Protector Key) : Option Key :=
  wrapped.openWith protector aadLocal

/-- `verify_recovery`, of the database a wrap was read from. -/
def verifyRecovery (wrapped : Option (Sealed Text Key)) (passphrase : Text) : Except VaultError Key :=
  match wrapped with
  | none => .error .noRecovery
  | some wrapped => unwrapRecovery wrapped passphrase

end Vault

/-- The memory of a process: how its key is read, and how another is put there. -/
structure Memory where
  key : Prog Api (Option Key)
  install : Key → Prog Api Unit

def Memory.service : Memory := ⟨ask .vaultKey, fun key => ask (.install key)⟩

/-- A tool's, with the key it loaded; what it puts there goes with it. -/
def Memory.tool (key : Option Key) : Memory := ⟨pure key, fun _ => pure ()⟩

namespace Vault

/-- `load`, in a tool. -/
def load : Prog Api (Option Key) := do
  let protector ← ask .protector
  match ← ask .masterLocal with
  | some wrapped => pure (unprotect protector wrapped)
  | none =>
    match ← ask .masterRecovery with
    | some _ => pure none
    | none => do
      let key ← ask .randomKey
      ask (.setMasterLocal (protect protector key))
      pure (some key)

/-- `key` -/
def withKey {α : Type} (m : Memory) (f : Key → Prog Api (Except VaultError α)) : Prog Api (Except VaultError α) := do
  match ← m.key with
  | none => pure (.error .locked)
  | some key => f key

/-- The new passphrase is wrapped around the key, in `set_recovery` and `replace_recovery`. -/
def putRecovery (key : Key) (new : Text) : Prog Api (Except VaultError Unit) := do
  ask (.setMasterRecovery (wrapRecovery key new))
  pure (.ok ())

def setRecovery (m : Memory) (current : Option Text) (new : Text) : Prog Api (Except VaultError Unit) :=
  withKey m fun key =>
    match checkStrength new with
    | .error e => pure (.error e)
    | .ok () => do
      match ← ask .masterRecovery with
      | none => putRecovery key new
      | some wrapped =>
        match current with
        | none => pure (.error .wrongPassphrase)
        | some current =>
          match unwrapRecovery wrapped current with
          | .error e => pure (.error e)
          | .ok held => if held = key then putRecovery key new else pure (.error .wrongPassphrase)

def replaceRecovery (m : Memory) (new : Text) : Prog Api (Except VaultError Unit) :=
  withKey m fun key =>
    match checkStrength new with
    | .error e => pure (.error e)
    | .ok () => putRecovery key new

/-- `reset`: how many saved credentials went. -/
def reset (m : Memory) : Prog Api Nat := do
  let key ← ask .randomKey
  let protector ← ask .protector
  let removed ← ask (.replaceSecrets (protect protector key))
  m.install key
  pure removed

def adopt (passphrase : Text) : Prog Api (Except VaultError Key) := do
  match verifyRecovery (← ask .masterRecovery) passphrase with
  | .error e => pure (.error e)
  | .ok key => do
    let protector ← ask .protector
    ask (.setMasterLocal (protect protector key))
    pure (.ok key)

def directoryPassword (m : Memory) : Prog Api (Except VaultError (Option Text)) := do
  match ← ask .directoryPassword with
  | none => pure (.ok none)
  | some value => withKey m fun key =>
    match value.openWith key aadDirectoryPassword with
    | none => pure (.error .crypto)
    | some password => pure (.ok (some password))

/-- `set_directory_password` of `App` -/
def setDirectoryPassword (m : Memory) (password : Text) : Prog Api (Except VaultError Unit) :=
  withKey m fun key => do
    ask (.setDirectoryPassword ⟨key, aadDirectoryPassword, password⟩)
    pure (.ok ())

end Vault

end WebAccess
