/-
Local accounts and the directory's never cross. A row is a local account's from its insertion on or
never (`Rows`), and a sign-in goes one way or the other: if the name is a local account's, the
password is checked against its hash, and the session is created for that row after the hash has been
read again; otherwise the directory is asked, and the session is created for a row that was found not
to be local.
-/
import WebAccess.Serve.Revocation
import WebAccess.Serve.Rows

namespace WebAccess

open Codec Wire Process Transition

/-! ## What a session is created on -/

/-- The directory account a sign-in is of; a password is checked by the directory only if the name
is not a local account's. -/
def Running.account (t : Running) : Option Account :=
  match t.request with
  | .http (.ssoSignIn account _) _ => some account
  | .http (.login _ _ account _ _) _ => match t.task.made with
    | _ :: ⟨.userByName _, found⟩ :: _ => if (found.filter User.isLocal).isSome then none else account
    | _ => none
  | _ => none

/-- The rows of users an answer gives, the one that was just created among them. -/
def finds : Event Api → List User
  | ⟨.userByName _, found⟩ => found.toList
  | ⟨.userById _, found⟩ => found.toList
  | ⟨.userCreateReturning .., .ok user⟩ => [user]
  | _ => []

def Call.unhashed : Call → Bool
  | .localHash _ => false
  | _ => true

/-- The hash of a local account as it was read last. -/
def LastHash (made : List (Event Api)) (id : Int) (hash : Text) : Prop :=
  ∃ before after, made = before ++ ⟨.localHash id, some hash⟩ :: after ∧ ∀ ev ∈ after, ev.call.unhashed = true

variable {made : List (Event Api)}

variable {ev : Event Api} {r : Request} {e : Entry Proxy Act}

theorem LastHash.snoc {id : Int} {hash : Text} (h : LastHash made id hash) (hev : ev.call.unhashed = true) :
    LastHash (made ++ [ev]) id hash := by
  obtain ⟨before, after, rfl, hafter⟩ := h
  refine ⟨before, after ++ [ev], by simp, fun ev' hev' => ?_⟩
  rcases mem_snoc.1 hev' with hev' | rfl
  · exact hafter ev' hev'
  · exact hev

/-- A sign-in that goes by what the directory says of an account: an identity provider's, or one with a password whose
name was not a local account's. -/
inductive AsksDirectory (account : Account) : Request → List (Event Api) → Prop
  | sso {tokenHash : Bytes} {sent : Option Text} {made : List (Event Api)} :
      AsksDirectory account (.http (.ssoSignIn account tokenHash) sent) made
  | password {username : Text} {verify : Text → Bool} {tokenHash : Bytes} {random : Text} {sent : Option Text}
      {found : Option User} {rest : List (Event Api)} (directory : found.filter User.isLocal = none) :
      AsksDirectory account (.http (.login username verify (some account) tokenHash random) sent)
        (⟨.acquire .shared, ()⟩ :: ⟨.userByName username, found⟩ :: rest)

/-- A session is created for a row that was found not to be local, after the account's SID was recorded in it. -/
structure ByDirectory (account : Account) (r : Request) (made : List (Event Api)) (user : User) : Prop where
  asks : AsksDirectory account r made
  found : ∃ ev ∈ made, user ∈ finds ev
  directory : user.isLocal = false
  recorded : ⟨.userRecordLogin user.id user.incarnation account.sid account.displayName, true⟩ ∈ made

/-- A session is created for a local account that was found first, and found again with the hash the password was
verified against. -/
structure ByHash (verify : Text → Bool) (username : Text) (row : User) (stored : Option Text) (rest : List (Event Api))
    (user : User) : Prop where
  isLocal : row.isLocal = true
  verified : verify (stored.getD []) = true
  again : ⟨.userById row.id, some user⟩ ∈ rest
  still : user.isLocal = true
  incarnation : user.incarnation = row.incarnation
  hash : LastHash rest row.id (stored.getD [])

/-- What a sign-in may create a session for. -/
inductive Grounded : Request → List (Event Api) → User → Prop
  | directory {account : Account} {r : Request} {made : List (Event Api)} {user : User}
      (h : ByDirectory account r made user) : Grounded r made user
  | hash {username : Text} {verify : Text → Bool} {account : Option Account} {tokenHash : Bytes} {random : Text}
      {sent : Option Text} {row user : User} {stored : Option Text} {rest : List (Event Api)}
      (h : ByHash verify username row stored rest user) :
      Grounded (.http (.login username verify account tokenHash random) sent)
        (⟨.acquire .shared, ()⟩ :: ⟨.userByName username, some row⟩ :: ⟨.localHash row.id, stored⟩ :: rest) user

theorem AsksDirectory.append {account : Account} {more : List (Event Api)} (h : AsksDirectory account r made) :
    AsksDirectory account r (made ++ more) := by
  cases h with
  | sso => exact .sso
  | password directory => exact .password directory

theorem Grounded.snoc {user : User} (h : Grounded r made user) (hev : ev.call.unhashed = true) :
    Grounded r (made ++ [ev]) user := by
  cases h with
  | directory h =>
    obtain ⟨ev', hev', hfinds⟩ := h.found
    exact .directory ⟨h.asks.append, ⟨ev', List.mem_append_left _ hev', hfinds⟩, h.directory,
      List.mem_append_left _ h.recorded⟩
  | hash h =>
    exact .hash { h with again := List.mem_append_left _ h.again, hash := h.hash.snoc hev }

/-- Sessions are created by sign-ins, for what they have found. -/
abbrev Signing (r : Request) : Protocol Api :=
  .logging fun made c => ∀ tokenHash userId incarnation expires,
    c = .sessionCreate tokenHash userId incarnation expires →
    ∃ user, Grounded r made user ∧ user.id = userId ∧ user.incarnation = incarnation

section Programs

variable {α β : Type} {r : Request} {made : List (Event Api)}

theorem signing_ask {c : Call} {f : c.Answer → Prog Api β} {post : List (Event Api) → β → Prop}
    (hc : ∀ tokenHash userId incarnation expires, c ≠ .sessionCreate tokenHash userId incarnation expires)
    (hf : ∀ a, (f a).Obeys (Signing r) post (made ++ [⟨c, a⟩])) : (ask c >>= f).Obeys (Signing r) post made :=
  obeys_call (P := Signing r) (fun tokenHash userId incarnation expires h =>
    absurd h (hc tokenHash userId incarnation expires)) hf

theorem signing_of_within {tags : List Tag} {p : Prog Api α} (hp : Within tags p)
    (htags : tags.contains .session = false) : p.Obeys (Signing r) (fun _ _ => True) made := by
  refine obeys_of_makes (P := Signing r) (I := fun _ => True) (fun q c _ hc => ⟨?_, fun _ => trivial⟩) hp trivial
  intro tokenHash userId incarnation expires h
  exact absurd (congrArg Call.tag h) (hc.tag_ne htags nofun)

/-- What comes of the two ways: whatever row is carried on has its grounds. -/
def Finished (r : Request) (made : List (Event Api)) (res : ApiResult User) : Prop :=
  ∀ user, res = .ok user → Grounded r made user

theorem finished_error {e : ApiError} : Finished r made (.error e) := fun _ h => by cases h

variable {user : User}

theorem signing_bindAccount (account : Account) (hasks : AsksDirectory account r made)
    (hfound : ∃ ev ∈ made, user ∈ finds ev) : (bindAccount account user).Obeys (Signing r) (Finished r) made := by
  have hmismatch : ∀ {made : List (Event Api)}, (sidMismatch user).Obeys (Signing r) (Finished r) made :=
    signing_ask nofun fun _ => finished_error
  unfold bindAccount
  split
  · exact finished_error
  · rename_i hlocal
    split
    · exact hmismatch
    · refine signing_ask nofun fun recorded => ?_
      split
      · rename_i hrecorded
        obtain ⟨ev, hev, hfinds⟩ := hfound
        rintro _ ⟨⟩
        exact .directory ⟨hasks.append, ⟨ev, List.mem_append_left _ hev, hfinds⟩, Bool.eq_false_iff.2 hlocal,
          List.mem_append_right _ (by rw [hrecorded]; exact List.mem_singleton_self _)⟩
      · refine signing_ask nofun fun current => ?_
        simp only []
        split
        · exact hmismatch
        · exact finished_error

theorem signing_finishDirectory (account : Account) (hasks : AsksDirectory account r made) :
    (finishDirectory account).Obeys (Signing r) (Finished r) made := by
  refine signing_ask nofun fun named => ?_
  cases named with
  | some user =>
    exact signing_bindAccount account hasks.append
      ⟨_, List.mem_concat_self, by simp [finds]⟩
  | none =>
    refine signing_ask nofun fun bound => ?_
    cases bound with
    | some old =>
      refine signing_ask nofun fun renamed => ?_
      split
      · refine signing_ask nofun fun current => ?_
        simp only []
        split
        · rename_i user hfilter
          obtain ⟨hcurrent, -⟩ := Option.filter_eq_some_iff.1 hfilter
          refine signing_bindAccount account hasks.append.append.append.append
            ⟨_, List.mem_concat_self, ?_⟩
          simpa [finds] using hcurrent
        · exact finished_error
      · exact finished_error
    | none =>
      refine signing_ask nofun fun created => ?_
      cases created with
      | error e => exact finished_error
      | ok user =>
        exact signing_bindAccount account hasks.append.append.append
          ⟨_, List.mem_concat_self, by simp [finds]⟩

variable {tokenHash : Bytes}

theorem signing_finishLocal {username : Text} {verify : Text → Bool} {account : Option Account}
    {random random' : Text} {sent : Option Text} {row : User} {stored : Option Text} {rest : List (Event Api)}
    (hlocal : row.isLocal = true) (hverified : verify (stored.getD []) = true) :
    (finishLocal row.id row.incarnation (stored.getD []) random).Obeys
      (Signing (.http (.login username verify account tokenHash random') sent))
      (Finished (.http (.login username verify account tokenHash random') sent))
      (⟨.acquire .shared, ()⟩ :: ⟨.userByName username, some row⟩ :: ⟨.localHash row.id, stored⟩ :: rest) := by
  refine signing_ask nofun fun found => signing_ask nofun fun current => ?_
  cases hfilter : found.filter fun u => u.isLocal && u.incarnation == row.incarnation with
  | none => exact finished_error
  | some user =>
    simp only []
    split
    · rename_i hcurrent
      refine signing_ask nofun fun recorded => ?_
      split
      · rintro _ ⟨⟩
        obtain ⟨rfl, hstill⟩ := Option.filter_eq_some_iff.1 hfilter
        obtain rfl := beq_iff_eq.1 hcurrent
        simp only [Bool.and_eq_true, beq_iff_eq] at hstill
        exact Grounded.hash {
          isLocal := hlocal
          verified := hverified
          again := List.mem_append_left _ (List.mem_append_left _ (List.mem_concat_self))
          still := hstill.1
          incarnation := hstill.2
          hash := LastHash.snoc ⟨_, [], rfl, fun _ h => by cases h⟩ rfl }
      · exact finished_error
    · exact finished_error

theorem signing_signedIn {last : Prog Api (ApiResult Unit)} (hground : Grounded r made user)
    (hlast : ∀ {made}, last.Obeys (Signing r) (fun _ _ => True) made) :
    (signedIn user tokenHash last).Obeys (Signing r) (fun _ _ => True) made := by
  refine obeys_bind.2 (signing_ask nofun fun lasts => signing_ask nofun fun now => ?_)
  refine obeys_call (P := Signing r) ?_ fun created => ?_
  · rintro _ _ _ _ ⟨⟩
    exact ⟨user, (hground.snoc rfl).snoc rfl, rfl, rfl⟩
  · match created with
    | .error _ | .ok false => exact trivial
    | .ok true => exact signing_ask nofun fun _ => hlast

theorem signing_loginWrites {generation : Nat} {finished : Prog Api (ApiResult User)}
    {last : User → Prog Api (ApiResult Unit)}
    (hfinished : ∀ current, finished.Obeys (Signing r) (Finished r) (made ++ [⟨.generation, current⟩]))
    (hlast : ∀ user {made}, (last user).Obeys (Signing r) (fun _ _ => True) made) :
    (loginWrites generation finished tokenHash last).Obeys (Signing r) (fun _ _ => True) made := by
  refine signing_ask nofun fun current => ?_
  split
  · refine obeys_bind.2 ((hfinished current).mono fun made' res hres => ?_)
    cases res with
    | error e => exact trivial
    | ok user => exact signing_signedIn (hres user rfl) fun {made} => hlast user
  · exact trivial

theorem signing_holding {p : Prog Api α} {h : Hold} {post post' : List (Event Api) → α → Prop}
    (hp : p.Obeys (Signing r) post (made ++ [⟨.acquire h, ()⟩]))
    (hpost : ∀ made a, post made a → post' (made ++ [⟨.release, ()⟩]) a) :
    (holding h p).Obeys (Signing r) post' made := by
  refine signing_ask nofun fun _ => obeys_bind.2 (hp.mono fun made' a ha => ?_)
  exact signing_ask nofun fun _ => hpost made' a ha

/-- What the first hold of a sign-in with a password comes out with: nothing if the name is not a local account's. -/
def Looked (username : Text) (made : List (Event Api)) : Option (User × Text) → Prop
  | none => ∃ found rest, made = ⟨.acquire .shared, ()⟩ :: ⟨.userByName username, found⟩ :: rest ∧
      found.filter User.isLocal = none
  | some (row, hash) => ∃ stored rest, made = ⟨.acquire .shared, ()⟩ :: ⟨.userByName username, some row⟩ ::
      ⟨.localHash row.id, stored⟩ :: rest ∧ row.isLocal = true ∧ hash = stored.getD []

theorem signing_login (username : Text) (verify : Text → Bool) (account : Option Account) (tokenHash : Bytes)
    (random : Text) (sent : Option Text) :
    (login username verify account tokenHash random).Obeys
      (Signing (.http (.login username verify account tokenHash random) sent)) (fun _ _ => True) [] := by
  have hreads : (loginReads username).Obeys (Signing (.http (.login username verify account tokenHash random) sent))
      (fun made found => ∀ more, Looked username (made ++ more) found.2) ([] ++ [⟨.acquire .shared, ()⟩]) := by
    refine signing_ask nofun fun found => ?_
    cases hfilter : found.filter User.isLocal with
    | none =>
      exact signing_ask nofun fun generation more => ⟨found, _, rfl, hfilter⟩
    | some row =>
      obtain ⟨rfl, hlocal⟩ := Option.filter_eq_some_iff.1 hfilter
      exact signing_ask nofun fun hash => signing_ask nofun fun generation more => ⟨hash, _, rfl, hlocal, rfl⟩
  have hfirst : (holding .shared (loginReads username)).Obeys
      (Signing (.http (.login username verify account tokenHash random) sent))
      (fun made found => ∀ more, Looked username (made ++ more) found.2) [] :=
    signing_holding hreads fun made found h more => by
      rw [List.append_assoc]
      exact h _
  have hlast : ∀ (user : User) {made : List (Event Api)}, (readBack user).Obeys
      (Signing (.http (.login username verify account tokenHash random) sent)) (fun _ _ => True) made := by
    intro user made
    have hwithin : Within [] (readBack user) := within_readBack
    exact signing_of_within hwithin rfl
  refine obeys_bind.2 (hfirst.mono fun made found hfound => ?_)
  refine signing_holding (signing_loginWrites (fun current => ?_) hlast) fun _ _ _ => trivial
  obtain ⟨generation, found⟩ := found
  have hlooked := hfound ([⟨.acquire .shared, ()⟩] ++ [⟨.generation, current⟩])
  rw [← List.append_assoc] at hlooked
  cases found with
  | none =>
    obtain ⟨found, rest, hmade, hfilter⟩ := hlooked
    cases account with
    | none => exact finished_error
    | some account =>
      rw [hmade]
      exact signing_finishDirectory account (.password hfilter)
  | some found =>
    obtain ⟨row, hash⟩ := found
    obtain ⟨stored, rest, hmade, hlocal, rfl⟩ := hlooked
    rw [hmade]
    simp only [checked]
    split
    · rename_i hverified
      exact signing_finishLocal hlocal hverified
    · exact finished_error

theorem signing_ssoSignIn (account : Account) (tokenHash : Bytes) (sent : Option Text) :
    (ssoSignIn account tokenHash).Obeys (Signing (.http (.ssoSignIn account tokenHash) sent)) (fun _ _ => True) [] := by
  have hreads : Within [.gate] (holding .shared ssoReads) :=
    within_holding (within_ask rfl fun _ => Vault.within_directoryPassword.bind fun _ => within_pure)
  refine obeys_bind.2 (Prog.Obeys.mono (fun made found _ => ?_) (signing_of_within hreads rfl))
  match found with
  | (_, .error _) | (_, .ok none) => exact trivial
  | (generation, .ok (some _)) =>
    simp only []
    split
    · exact trivial
    · refine signing_holding (signing_loginWrites (fun current => ?_) fun _ _ => trivial) fun _ _ _ => trivial
      exact signing_finishDirectory account .sso

end Programs

theorem signing_program (r : Request) : r.program.Obeys (Signing r) (fun _ _ => True) [] := by
  have hplain : ∀ {r : Request} {p : Prog Api (ApiResult Unit)} {made : List (Event Api)},
      p.Obeys (Signing r) (fun _ _ => True) made → (stamped (Route.plain p)).Obeys (Signing r) (fun _ _ =>
          True) made := by
    intro r p made hp
    refine obeys_bind.2 (obeys_bind.2 (hp.mono fun _ _ _ => ?_))
    exact signing_ask nofun fun _ => trivial
  have hother : ∀ {r : Request}, r.footprint.contains .session = false →
      r.program.Obeys (Signing r) (fun _ _ => True) [] := fun h => signing_of_within (Request.within_program _) h
  cases r with
  | http r sent =>
    cases r with
    | login => exact hplain (signing_login ..)
    | ssoSignIn account tokenHash => exact hplain (signing_ssoSignIn account tokenHash sent)
    | _ => exact hother rfl
  | _ => exact hother rfl

/-! ## Sessions and their rows -/

def Creates (e : Entry Proxy Act) (t : Running) (userId : Int) : Prop :=
  ∃ tokenHash incarnation expires, taskCall e =
    some (t, ⟨.sessionCreate tokenHash userId incarnation expires, .ok true⟩)

/-- A sign-in with the password of a local account: the row it found first, and the hash it read first and verified the
password against. -/
structure LocalSession (before : ProxyTrace) (e : Entry Proxy Act) (t : Running) (userId : Int) (username : Text)
    (verify : Text → Bool) (row : User) (stored : Option Text) (rest : List (Event Api)) : Prop where
  request : ∃ account tokenHash random sent, t.request = .http (.login username verify account tokenHash random) sent
  made : t.task.made =
    ⟨.acquire .shared, ()⟩ :: ⟨.userByName username, some row⟩ :: ⟨.localHash row.id, stored⟩ :: rest
  rowId : row.id = userId
  verified : verify (stored.getD []) = true
  /-- The hash as it was read last is the one that was verified against. -/
  hash : LastHash rest userId (stored.getD [])
  /-- From the read of the row to the session, it was there and a local account. -/
  throughout : ∃ tr₁ e₀ tr₂ t₀, before = tr₁ ++ e₀ :: tr₂ ∧ taskCall e₀ = some (t₀, ⟨.userByName username, some row⟩) ∧
    (∃ i w w', e₀.label = .call i w ∧ e.label = .call i w') ∧
    ∀ e' ∈ e₀ :: (tr₂ ++ [e]), ∃ u ∈ e'.pre.app.store.users.rows,
      u.id = userId ∧ u.incarnation = row.incarnation ∧ u.isLocal = true

/-- Local accounts and the directory's stay apart. -/
structure NeverCross (trace : ProxyTrace) (s : Proxy) : Prop where
  kinds : ∀ e ∈ trace, ∀ u ∈ e.pre.app.store.users.rows, ∀ u' ∈ s.app.store.users.rows,
    u'.id = u.id → u'.isLocal = u.isLocal
  directory : ∀ e ∈ trace, ∀ t userId, Creates e t userId → t.account ≠ none →
    (∃ u ∈ e.pre.app.store.users.rows, u.id = userId ∧ u.isLocal = false) ∧
      ∀ u ∈ s.app.store.users.rows, u.id = userId → u.isLocal = false
  hash : ∀ before e after, trace = before ++ e :: after → ∀ t userId, Creates e t userId → t.account = none →
    ∃ username verify row stored rest, LocalSession before e t userId username verify row stored rest

section Runs

variable {b : Boot} {trace : ProxyTrace} {s : Proxy} {i : Nat} {t : Running}

variable {u : User} {userId : Int} {before after : ProxyTrace} {e : Entry Proxy Act}

variable {ev : Event Api}

theorem mem_of_finds {m : Holder} {w : World} {a : App} (hanswer : ev.answer = (App.answer m w ev.call a).1)
    (hu : u ∈ finds ev) :
    u ∈ (App.answer m w ev.call a).2.store.users.rows ∧ ∀ id, ev.call = .userById id → u.id = id := by
  obtain ⟨c, answer⟩ := ev
  obtain rfl : answer = (App.answer m w c a).1 := hanswer
  cases c with
  | userByName username => exact ⟨List.mem_of_find?_eq_some (Option.mem_toList.1 hu), fun _ h => by cases h⟩
  | userById id =>
    obtain ⟨hmem, hid⟩ := Table.byId_eq_some (Option.mem_toList.1 hu)
    refine ⟨hmem, fun id' h => ?_⟩
    cases h
    exact hid
  | userCreateReturning username displayName =>
    refine ⟨?_, fun _ h => by cases h⟩
    simp only [App.answer, App.write, Store.userCreateReturning] at hu ⊢
    split at hu
    · simp [finds] at hu
    · rename_i hfree
      rw [if_neg hfree]
      simp only [finds, List.mem_singleton] at hu
      rw [hu]
      exact List.mem_concat_self
  | _ => cases hu

theorem Grounded.account {user : User} (h : Grounded t.request t.task.made user) :
    (∃ account, t.account = some account ∧ ByDirectory account t.request t.task.made user) ∨
      t.account = none ∧ ∃ username verify account tokenHash random sent row stored rest,
        t.request = .http (.login username verify account tokenHash random) sent ∧
        t.task.made =
          ⟨.acquire .shared, ()⟩ :: ⟨.userByName username, some row⟩ :: ⟨.localHash row.id, stored⟩ :: rest ∧
        ByHash verify username row stored rest user := by
  unfold Running.account
  generalize t.request = r, t.task.made = made at h ⊢
  cases h with
  | directory h =>
    refine .inl ⟨_, ?_, h⟩
    cases h.asks with
    | sso => rfl
    | password directory => simp [directory]
  | hash h =>
    refine .inr ⟨?_, _, _, _, _, _, _, _, _, _, rfl, rfl, h⟩
    simp [Option.filter, h.isLocal]

theorem Store.sessionCreate_row {store : Store} {tokenHash : Bytes} {incarnation expires now : Int}
    (h : (store.sessionCreate tokenHash userId incarnation expires now).1 = .ok true) :
    ∃ u ∈ store.users.rows, u.id = userId ∧ u.incarnation = incarnation := by
  unfold Store.sessionCreate at h
  split at h
  · rename_i hrow
    obtain ⟨u, hu, hids⟩ := List.any_eq_true.1 hrow
    simp only [Bool.and_eq_true, beq_iff_eq] at hids
    exact ⟨u, hu, hids⟩
  · cases h

theorem grounded_of_creates (run : ProxyRun b (before ++ e :: after) s) (hcreates : Creates e t userId) :
    ∃ (i : Nat) (w : World) (user : User), e.label = .call i w ∧ e.pre.tasks[i]? = some t ∧
      Grounded t.request t.task.made user ∧ user.id = userId ∧
      ∃ u ∈ e.pre.app.store.users.rows, u.id = userId ∧ u.incarnation = user.incarnation := by
  obtain ⟨tokenHash, incarnation, expires, hcall⟩ := hcreates
  obtain ⟨i, w, task, app, hlabel, ht, hmade⟩ := taskCall_eq_some hcall
  have hobeys := obeys_of_run run.before.1 (P := Signing) (q := fun _ => []) signing_program t (List.mem_of_getElem? ht)
  obtain ⟨hallows, -, -⟩ := hobeys.step hmade
  rw [Protocol.after_logging, List.nil_append] at hallows
  obtain ⟨user, hgrounded, hid, rfl⟩ := hallows _ _ _ _ rfl
  exact ⟨i, w, user, hlabel, ht, hgrounded, hid, Store.sessionCreate_row (App.served hmade).2.1.symm⟩

theorem found_of_run (run : ProxyRun b trace s) (ht : s.tasks[i]? = some t) (hev : ev ∈ t.task.made)
    (hu : u ∈ finds ev) : ∃ e ∈ trace, CallOf i t ev e ∧ u ∈ e.post.app.store.users.rows ∧
      ∀ id, ev.call = .userById id → u.id = id := by
  obtain ⟨e, he, hcall⟩ := calls_of_run run i t ht ev hev
  obtain ⟨t₀, htask, -⟩ := hcall.task
  obtain ⟨m, w, hanswer, happ⟩ := app_of_taskCall (run.step_of_mem he) htask
  obtain ⟨hmem, hid⟩ := mem_of_finds hanswer hu
  exact ⟨e, he, hcall, happ ▸ hmem, hid⟩

theorem directory_session (run : ProxyRun b (before ++ e :: after) s)
    (hkept : ∀ e' ∈ before ++ e :: after, ¬ Replaces e') (hcreates : Creates e t userId) (haccount : t.account ≠ none) :
    ∃ u ∈ e.pre.app.store.users.rows, u.id = userId ∧ u.isLocal = false := by
  obtain ⟨i, w, user, -, ht, hgrounded, rfl, u, hu, hid, -⟩ := grounded_of_creates run hcreates
  rcases hgrounded.account with ⟨account, -, hdirectory⟩ | ⟨hnone, -⟩
  · refine ⟨u, hu, hid, ?_⟩
    obtain ⟨ev, hev, hfinds⟩ := hdirectory.found
    obtain ⟨e₀, he₀, -, huser, -⟩ := found_of_run run.before.1 ht hev hfinds
    obtain ⟨tr₁, tr₂, rfl⟩ := List.append_of_mem he₀
    have hpart := run.before.1.after
    rw [kind_stays hpart.1 hpart.2 (fun e' he' => hkept e' (by simp [he'])) huser hu hid]
    exact hdirectory.directory
  · exact absurd hnone haccount

theorem row_throughout {tr₁ tr₂ : ProxyTrace} {e₀ : Entry Proxy Act} (run : ProxyRun b (tr₁ ++ e₀ :: tr₂) e.pre)
    (hkept : ∀ e' ∈ e₀ :: tr₂, ¬ Replaces e') (hu : u ∈ e.pre.app.store.users.rows)
    (hold : u.id ≤ e₀.pre.app.store.users.seq) :
    ∀ e' ∈ e₀ :: (tr₂ ++ [e]), ∃ v ∈ e'.pre.app.store.users.rows,
      v.id = u.id ∧ v.incarnation = u.incarnation ∧ v.isLocal = u.isLocal := by
  intro e' he'
  rw [← List.cons_append] at he'
  rcases mem_snoc.1 he' with he' | rfl
  · -- the ids up to the counter of the first step are old in every later one
    obtain ⟨mid, last, hsplit⟩ := List.append_of_mem he'
    have hrun : ProxyPath e₀.pre (mid ++ e' :: last) e.pre := hsplit ▸ run.onward
    have run' : ProxyRun b ((tr₁ ++ mid) ++ e' :: last) e.pre := by
      rw [List.append_assoc, ← hsplit]
      exact run
    rw [hsplit] at hkept
    have hseq := (stays_of_run run.before.1 hrun.before.1 fun e' he' => hkept e' (by simp [he'])).seq
    obtain ⟨v, hv, hid, hincarnation, hlocal⟩ :=
      row_before run'.before.1 hrun.onward (fun e' he' => hkept e' (List.mem_append_right _ he')) hu (hold.trans hseq)
    exact ⟨v, hv, hid.symm, hincarnation.symm, hlocal.symm⟩
  · exact ⟨u, hu, rfl, rfl, rfl⟩

/-- A session of a local password: its row was there from the read on, and the hash read last is the one that was
verified. -/
theorem hash_session (run : ProxyRun b (before ++ e :: after) s) (hkept : ∀ e' ∈ before ++ e :: after, ¬ Replaces e')
    (hcreates : Creates e t userId) (haccount : t.account = none) :
    ∃ username verify row stored rest, LocalSession before e t userId username verify row stored rest := by
  obtain ⟨i, w, user, hlabel, ht, hgrounded, rfl, u, hu, hid, hincarnation⟩ := grounded_of_creates run hcreates
  rcases hgrounded.account with ⟨account, hsome, -⟩ | ⟨-, username, verify, account, tokenHash,
    random, sent, row, stored,
    rest, hr, hmade, hhash⟩
  · rw [hsome] at haccount
    cases haccount
  · have hagain : ⟨.userById row.id, some user⟩ ∈ t.task.made := by simp [hmade, hhash.again]
    obtain ⟨-, -, -, -, hsame⟩ := found_of_run run.before.1 ht hagain (List.mem_singleton_self user)
    have hrow : user.id = row.id := hsame row.id rfl
    have hread : ⟨.userByName username, some row⟩ ∈ t.task.made := by simp [hmade]
    obtain ⟨e₀, he₀, hcall, -, -⟩ := found_of_run run.before.1 ht hread (List.mem_singleton_self row)
    obtain ⟨t₀, htask, -⟩ := hcall.task
    obtain ⟨w₀, hlabel₀⟩ := hcall.label
    have hmem : row ∈ e₀.pre.app.store.users.rows := by
      obtain ⟨m, w', hanswer, -⟩ := app_of_taskCall (run.before.1.step_of_mem he₀) htask
      exact List.mem_of_find?_eq_some hanswer.symm
    obtain ⟨tr₁, tr₂, rfl⟩ := List.append_of_mem he₀
    have hold : u.id ≤ e₀.pre.app.store.users.seq := by
      rw [hid, hrow]
      exact e₀.pre.app.store.users.id_le row hmem
    have hpart : ∀ e' ∈ e₀ :: tr₂, ¬ Replaces e' := fun e' he' =>
      hkept e' (List.mem_append_left _ (List.mem_append_right _ he'))
    have hthroughout := row_throughout run.before.1 hpart hu hold
    have hlocal : u.isLocal = true := by
      rw [kind_stays run.before.1.before.1 run.before.1.onward hpart hmem hu (hid.trans hrow)]
      exact hhash.isLocal
    exact ⟨username, verify, row, stored, rest, {
      request := ⟨account, tokenHash, random, sent, hr⟩
      made := hmade
      rowId := hrow.symm
      verified := hhash.verified
      hash := hrow ▸ hhash.hash
      throughout := by
        refine ⟨tr₁, e₀, tr₂, t₀, rfl, htask, ⟨i, w₀, w, hlabel₀, hlabel⟩, fun e' he' => ?_⟩
        obtain ⟨v, hv, hvid, hvincarnation, hvlocal⟩ := hthroughout e' he'
        exact ⟨v, hv, hvid.trans hid, hvincarnation.trans (hincarnation.trans hhash.incarnation),
          hvlocal.trans hlocal⟩ }⟩

/-- No row changes its kind, the directory's sign-ins are on rows that are not and do not become local, and those by a
local password are on a local row that was there all along, with the hash the password was verified against. -/
theorem accounts_never_cross (run : ProxyRun b trace s) (hkept : ∀ e ∈ trace, ¬ Replaces e) : NeverCross trace s := by
  have hkinds : ∀ e ∈ trace, ∀ u ∈ e.pre.app.store.users.rows, ∀ u' ∈ s.app.store.users.rows,
      u'.id = u.id → u'.isLocal = u.isLocal := by
    intro e he u hu u' hu' hid
    obtain ⟨tr₁, tr₂, rfl⟩ := List.append_of_mem he
    exact kind_stays run.before.1 run.onward (fun e' he' => hkept e' (List.mem_append_right _ he')) hu hu' hid
  refine ⟨hkinds, fun e he t userId hcreates haccount => ?_, ?_⟩
  · obtain ⟨tr₁, tr₂, rfl⟩ := List.append_of_mem he
    obtain ⟨u, hu, hid, hlocal⟩ := directory_session run hkept hcreates haccount
    exact ⟨⟨u, hu, hid, hlocal⟩, fun u' hu' hid' => (hkinds e he u hu u' hu' (hid'.trans hid.symm)).trans hlocal⟩
  · rintro before e after rfl t userId hcreates haccount
    exact hash_session run hkept hcreates haccount

end Runs

/-- The call of a step puts no database in place. -/
def keepsDatabase (e : Entry Proxy Act) : Bool :=
  match taskCall e with
  | some (_, ⟨.replaceWith _, _⟩) => false
  | _ => true

theorem not_replaces_of_keepsDatabase (h : keepsDatabase e = true) : ¬ Replaces e := by
  rintro ⟨t, store, hcall⟩
  simp [keepsDatabase, hcall] at h

/-- The row of the session that a step creates, if it is of that kind. -/
def createsOn (directory : Bool) (e : Entry Proxy Act) : Option Int :=
  match taskCall e with
  | some (t, ⟨.sessionCreate _ userId _ _, .ok true⟩) => if t.account.isSome = directory then some userId else none
  | _ => none

theorem creates_of_createsOn {directory : Bool} {userId : Int} (h : createsOn directory e = some userId) :
    ∃ t, Creates e t userId ∧ t.account.isSome = directory := by
  unfold createsOn at h
  split at h
  · rename_i t tokenHash userId' incarnation expires hcall
    split at h
    · rename_i hkind
      obtain rfl := Option.some_inj.1 h
      exact ⟨t, ⟨tokenHash, incarnation, expires, hcall⟩, hkind⟩
    · cases h
  · cases h

def accountAdmin : Account := { username := ['b'], sid := ['C'] }

/-- The local user signs in, and then someone of the directory. -/
def bothWays : List Act :=
  signInLocal ++
    .request (.http (.login accountAdmin.username (fun _ => true) (some accountAdmin) [2] []) none) :: calls 1 17

/-- A local sign-in and one by the directory, on rows of their own. -/
theorem accounts_never_cross_bothWays : ∃ s, ProxyRun localUser (scriptedProxy localUser bothWays) s ∧
    NeverCross (scriptedProxy localUser bothWays) s ∧
    (∃ e ∈ scriptedProxy localUser bothWays, ∃ t, Creates e t 1 ∧ t.account = none) ∧
    ∃ e ∈ scriptedProxy localUser bothWays, ∃ t, Creates e t 2 ∧ t.account ≠ none := by
  obtain ⟨s, run, -⟩ := scriptedProxy_run localUser bothWays (fun _ => true) (by decide +kernel)
  have hkept : (scriptedProxy localUser bothWays).all keepsDatabase = true := by decide +kernel
  have hlocal : (scriptedProxy localUser bothWays).any (fun e => createsOn false e == some 1) = true := by
    decide +kernel
  have hdirectory : (scriptedProxy localUser bothWays).any (fun e => createsOn true e == some 2) = true := by
    decide +kernel
  refine ⟨s, run, ?_, ?_, ?_⟩
  · exact accounts_never_cross run fun e he => not_replaces_of_keepsDatabase (List.all_eq_true.1 hkept e he)
  · obtain ⟨e, he, hcreates⟩ := List.any_eq_true.1 hlocal
    obtain ⟨t, ht, hkind⟩ := creates_of_createsOn (beq_iff_eq.1 hcreates)
    exact ⟨e, he, t, ht, by simpa using hkind⟩
  · obtain ⟨e, he, hcreates⟩ := List.any_eq_true.1 hdirectory
    obtain ⟨t, ht, hkind⟩ := creates_of_createsOn (beq_iff_eq.1 hcreates)
    exact ⟨e, he, t, ht, Option.isSome_iff_ne_none.1 hkind⟩

end WebAccess
