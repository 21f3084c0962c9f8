/-
How the requests use the gate. A request takes the gate before it touches the database and gives it
back; what it read in one hold it may act on in another only once it has found the generation to be
the one it read. `Gripping` is the protocol that says so: it follows the hold, the swap of an import,
and where what has been read so far came from. Whatever writes needs all of it to come from the
database that is in place.
-/
import WebAccess.Serve.Footprints

namespace WebAccess

open Codec Wire Process

/-! ## The protocol -/

/-- How far the swap of an import is: the database is there but not its generation, or the tickets
of the one before are. -/
inductive Stage
  | idle
  | replaced
  | bumped
  deriving DecidableEq

/-- Which database something was read in: one of a generation, or the one a connection was
registered in. -/
inductive Origin
  | generation (n : Nat)
  | entry (liveId : Nat)
  deriving DecidableEq

/-- What a request knows of the databases it has read. Nothing has been read; all was read in one,
some time ago; or in that one and, in this hold, in the one in place; all was read in the one in
place, whose generation may be known; no more is known. An import, an export, a report and a tool
are not asked. -/
inductive Trust
  | blank
  | before (o : Origin)
  | mixed (o : Origin)
  | now (generation : Option Nat)
  | lost
  | exempt
  deriving DecidableEq

/-- The calls that change something, besides the locks. -/
def Call.writes (c : Call) : Bool := !(c.tag matches .look | .gate | .lock)

namespace Trust

/-- All that was read was read in the database in place. -/
def Sure : Trust → Prop
  | now _ | exempt => True
  | _ => False

/-- A read: in a hold it is of the database in place, without one it could be of any. -/
def read : Trust → Trust
  | blank | before _ => lost
  | t => t

def acquire : Trust → Trust
  | blank => now none
  | before o => mixed o
  | t => t

def release : Trust → Trust
  | now (some n) => before (.generation n)
  | now none | mixed _ => lost
  | t => t

/-- The generation in place is the one that was read in, or it is not. -/
def compare (n : Nat) : Trust → Trust
  | now none => now (some n)
  | mixed (.generation g) => if n = g then now (some n) else lost
  | t => t

/-- The generation a connection was registered in. -/
def learn (id : Nat) (found : Option Nat) : Trust → Trust
  | mixed (.entry id') => match found with
    | some g => if id = id' then mixed (.generation g) else mixed (.entry id')
    | none => mixed (.entry id')
  | t => t.read

def next (t : Trust) : Event Api → Trust
  | ⟨.acquire _, _⟩ => t.acquire
  | ⟨.release, _⟩ => t.release
  | ⟨.generation, n⟩ => t.compare n
  | ⟨.generationOf id, found⟩ => t.learn id found
  | ⟨c, _⟩ => if c.reads then t.read else t

end Trust

/-- Where a request is: its hold of the gate, the swap it is making, what it knows. -/
structure Grip where
  held : Option Hold := none
  stage : Stage := .idle
  trust : Trust := .blank

namespace Grip

/-- The gate is taken by who has it not and given back by who has it, and a database is replaced by
who has it alone and is not asked. -/
def allowsHold (q : Grip) : Call → Prop
  | .acquire _ => q.held = none
  | .release => q.held ≠ none
  | .replaceWith _ => q.held = some .exclusive ∧ q.trust = .exempt
  | _ => True

/-- A swap, once begun, goes on to its end. -/
def allowsStage (q : Grip) : Call → Prop
  | .bumpGeneration => q.stage = .replaced
  | .install _ => q.stage = .idle ∨ q.stage = .bumped
  | .clearTickets => q.stage = .bumped
  | _ => q.stage = .idle

structure Allows (q : Grip) (c : Call) : Prop where
  hold : q.allowsHold c
  stage : q.allowsStage c
  trust : c.writes = true → q.trust.Sure

def nextHold (held : Option Hold) : Call → Option Hold
  | .acquire h => some h
  | .release => none
  | _ => held

def nextStage (stage : Stage) : Call → Stage
  | .replaceWith _ => .replaced
  | .bumpGeneration => .bumped
  | .clearTickets => .idle
  | _ => stage

def next (q : Grip) (e : Event Api) : Grip := ⟨nextHold q.held e.call, nextStage q.stage e.call, q.trust.next e⟩

end Grip

abbrev Gripping : Protocol Api := ⟨Grip, Grip.Allows, Grip.next⟩

/-- On return, and whenever it does not have the gate, a request is in no swap. -/
def Grip.Free {α : Type} (q : Grip) (_ : α) : Prop := q.held = none ∧ q.stage = .idle

/-! ## Inside a hold -/

section Rules

variable {α β : Type} {tags : List Tag} {h : Hold} {q : Grip}

/-- A hold in which all that was read was read, or nothing is asked. -/
structure Grip.Inside (h : Hold) (q : Grip) : Prop where
  held : q.held = some h
  stage : q.stage = .idle
  trust : q.trust.Sure

def Call.inner (c : Call) : Prop := c.tag ≠ .gate ∧ c.tag ≠ .swap

/-- The kinds of calls that neither take or give back the gate nor swap the database. -/
def innerTags (tags : List Tag) : Bool := !(tags.contains .gate || tags.contains .swap)

variable {c : Call} {e : Event Api}

theorem Call.among.inner (hc : c.among tags) (hin : innerTags tags = true) : c.inner := by
  rw [Call.among, List.contains_iff_mem, List.mem_cons] at hc
  simp only [innerTags, List.contains_eq_mem, Bool.not_eq_true', Bool.or_eq_false_iff, decide_eq_false_iff_not] at hin
  refine ⟨fun h => ?_, fun h => ?_⟩ <;> rw [h] at hc <;> simp_all

theorem Grip.next_held (hc : e.call.inner) : (q.next e).held = q.held := by
  obtain ⟨c, a⟩ := e
  cases c <;> first | rfl | exact absurd rfl hc.1

theorem Grip.next_stage (hc : e.call.inner) : (q.next e).stage = q.stage := by
  obtain ⟨c, a⟩ := e
  cases c <;> first | rfl | exact absurd rfl hc.2

theorem Grip.allows_inner (hc : c.inner) (hstage : q.stage = .idle) (htrust : c.writes = true → q.trust.Sure) :
    q.Allows c := by
  refine ⟨?_, ?_, htrust⟩
  · cases c <;> first | trivial | exact absurd rfl hc.1 | exact absurd rfl hc.2
  · cases c <;> first | exact hstage | exact .inl hstage | exact absurd rfl hc.2

theorem Trust.sure_next {t : Trust} (ht : t.Sure) (hc : e.call.inner) : (t.next e).Sure := by
  obtain ⟨c, a⟩ := e
  cases t with
  | now o => cases o <;> cases c <;> first | exact absurd rfl hc.1 | trivial
  | exempt => cases c <;> first | exact absurd rfl hc.1 | trivial
  | _ => exact ht.elim

theorem Grip.allows_release (hheld : q.held = some h) (hstage : q.stage = .idle) : q.Allows .release := by
  refine ⟨?_, hstage, nofun⟩
  rw [Grip.allowsHold, hheld]
  exact nofun

theorem obeys_inside {p : Prog Api α} (hp : Within tags p) (hin : innerTags tags = true) (hq : q.Inside h) :
    p.Obeys Gripping (fun q _ => q.Inside h) q := by
  refine obeys_of_makes (P := Gripping) (I := fun q : Grip => q.Inside h) (fun q c hq hc => ?_) hp hq
  have hc := hc.inner hin
  refine ⟨Grip.allows_inner hc hq.stage fun _ => hq.trust, fun a => ⟨?_, ?_, ?_⟩⟩
  · exact (Grip.next_held hc).trans hq.held
  · exact (Grip.next_stage hc).trans hq.stage
  · exact Trust.sure_next hq.trust hc

/-- A shared hold in which all was read in the database in place. -/
abbrev Grip.shared (generation : Option Nat) : Grip := ⟨some .shared, .idle, .now generation⟩

theorem obeys_look {o : Option Nat} {f : c.Answer → Prog Api α} {post : Grip → α → Prop} (hc : c.tag = .look)
    (hgeneration : c ≠ .generation) (hf : ∀ a, (f a).Obeys Gripping post (.shared o)) :
    (ask c >>= f).Obeys Gripping post (.shared o) := by
  refine obeys_call ?_ fun a => ?_
  · refine Grip.allows_inner ?_ rfl fun _ => trivial
    constructor <;> rw [hc] <;> exact nofun
  · have hnext : Gripping.next (Grip.shared o) ⟨c, a⟩ = Grip.shared o := by
      cases c <;> first | rfl | exact absurd rfl hgeneration | cases hc
    rw [hnext]
    exact hf a

variable {g : Nat}

theorem obeys_known {p : Prog Api α} (hp : Within tags p) (hin : innerTags tags = true) :
    p.Obeys Gripping (fun q _ => q = .shared (some g)) (.shared (some g)) := by
  refine obeys_of_makes (P := Gripping) (I := fun q : Grip => q = .shared (some g)) (fun q c hq hc => ?_) hp rfl
  obtain rfl := hq
  have hc := hc.inner hin
  refine ⟨Grip.allows_inner hc rfl fun _ => trivial, fun a => ?_⟩
  cases c <;> first | rfl | exact absurd rfl hc.1 | exact absurd rfl hc.2

theorem obeys_holding {p : Prog Api α} {trust : Trust} (hp : Within tags p) (hin : innerTags tags = true)
    (htrust : trust.acquire.Sure) : (holding h p).Obeys Gripping Grip.Free ⟨none, .idle, trust⟩ := by
  refine obeys_call ⟨rfl, rfl, nofun⟩ fun _ => obeys_bind.2 ?_
  refine Prog.Obeys.mono (fun q r hq => ?_) (obeys_inside hp hin ⟨rfl, rfl, htrust⟩)
  exact ⟨Grip.allows_release hq.held hq.stage, fun _ => ⟨rfl, hq.stage⟩⟩

theorem obeys_release {r : α} (hheld : q.held = some h) (hstage : q.stage = .idle) :
    (ask .release >>= fun _ => (pure r : Prog Api α)).Obeys Gripping
      (fun q' r' => q' = ⟨none, .idle, q.trust.release⟩ ∧ r' = r) q := by
  refine obeys_call (P := Gripping) (Grip.allows_release hheld hstage) fun _ => ⟨?_, rfl⟩
  simp [Grip.next, Grip.nextHold, Grip.nextStage, Trust.next, hstage]

/-- The gate is held, and a generation that comes out has been read in the database in place. -/
def Grip.Read (k : α → Option Nat) (q : Grip) (r : α) : Prop :=
  q.held = some .shared ∧ q.stage = .idle ∧ ∀ g, k r = some g → q.trust = .now (some g)

theorem obeys_reading {p : Prog Api α} {k : α → Option Nat} (hp : p.Obeys Gripping (Grip.Read k) (.shared none)) :
    (holding .shared p).Obeys Gripping (fun q r => q.Free r ∧
      ∀ g, k r = some g → q = ⟨none, .idle, .before (.generation g)⟩) {} := by
  refine obeys_call ⟨rfl, rfl, nofun⟩ fun _ => obeys_bind.2 (hp.mono fun q r hq => ?_)
  refine Prog.Obeys.mono (fun q' r' hq' => ?_) (obeys_release hq.1 hq.2.1)
  obtain ⟨rfl, rfl⟩ := hq'
  refine ⟨⟨rfl, rfl⟩, fun g hg => ?_⟩
  rw [hq.2.2 g hg]
  rfl

theorem obeys_writing {b : Nat → Bool} {p : Prog Api α} {otherwise : α} (hb : ∀ n, b n = true → n = g)
    (hp : Within tags (ask .generation >>= fun current => if b current then p else pure otherwise))
    (hin : innerTags tags = true) :
    (holding .shared (ask .generation >>= fun current => if b current then p else pure otherwise)).Obeys
      Gripping Grip.Free ⟨none, .idle, .before (.generation g)⟩ := by
  have hfree : ∀ {q : Grip} {r : α}, q.held = some .shared → q.stage = .idle →
      (ask .release >>= fun _ => (pure r : Prog Api α)).Obeys Gripping Grip.Free q := by
    intro q r hheld hstage
    refine Prog.Obeys.mono (fun q' r' hq' => ?_) (obeys_release hheld hstage)
    rw [hq'.1]
    exact ⟨rfl, rfl⟩
  refine obeys_call ⟨rfl, rfl, nofun⟩ fun _ => obeys_bind.2 ?_
  refine obeys_call ⟨trivial, rfl, nofun⟩ fun current => ?_
  have hcurrent := hp.2 current
  cases hbc : b current with
  | false =>
    simp only [Bool.false_eq_true, if_false]
    exact hfree rfl rfl
  | true =>
    obtain rfl := hb current hbc
    change Within tags (if b current = true then p else pure otherwise) at hcurrent
    rw [hbc, if_pos rfl] at hcurrent
    simp only [if_true]
    refine Prog.Obeys.mono (fun q r hq => hfree hq.held hq.stage) (obeys_inside (h := .shared) hcurrent hin ?_)
    refine ⟨rfl, rfl, ?_⟩
    simp [Grip.next, Trust.next, Trust.acquire, Trust.compare, Trust.Sure]

/-- What a connection does once it has found that the database it was registered in is in place; how
it comes out otherwise. -/
theorem obeys_entry {liveId : Nat} {p : Prog Api α} {otherwise : α} (hp : Within tags p)
    (hin : innerTags tags = true) :
    (holding .shared (ask (.generationOf liveId) >>= fun opened => ask .generation >>= fun generation =>
      if opened == some generation then p else pure otherwise)).Obeys Gripping
        (fun q r => q.Free r ∧ (r = otherwise ∨ ∃ g, q.trust = .before (.generation g)))
        ⟨none, .idle, .before (.entry liveId)⟩ := by
  refine obeys_call ⟨rfl, rfl, nofun⟩ fun u => obeys_bind.2 ?_
  refine obeys_call ⟨trivial, rfl, nofun⟩ fun opened => obeys_call ⟨trivial, rfl, nofun⟩ fun generation => ?_
  by_cases hopened : opened = some generation
  · subst hopened
    simp only [beq_self_eq_true, if_true]
    have hnow : (((Grip.mk none .idle (.before (.entry liveId))).next ⟨.acquire .shared, u⟩).next
        ⟨.generationOf liveId, some generation⟩).next ⟨.generation, generation⟩ = Grip.shared (some generation) := by
      simp [Grip.next, Grip.nextHold, Grip.nextStage, Trust.next, Trust.acquire, Trust.learn, Trust.compare]
    rw [hnow]
    refine Prog.Obeys.mono (fun q r hq => ?_) (obeys_known hp hin)
    refine Prog.Obeys.mono (fun q' r' hq' => ?_) (obeys_release (h := .shared) (by rw [hq]) (by rw [hq]))
    rw [hq'.1, hq]
    exact ⟨⟨rfl, rfl⟩, .inr ⟨generation, rfl⟩⟩
  · simp only [beq_iff_eq, hopened, if_false]
    refine obeys_pure.2 (Prog.Obeys.mono (fun q' r' hq' => ?_) (obeys_release (h := .shared) rfl rfl))
    rw [hq'.1, hq'.2]
    exact ⟨⟨rfl, rfl⟩, .inl rfl⟩

/-- Where a request that is not asked is. -/
abbrev Grip.exempt (held : Option Hold) : Grip := ⟨held, .idle, .exempt⟩

theorem obeys_exempt {held : Option Hold} {p : Prog Api α} (hp : Within tags p) (hin : innerTags tags = true) :
    p.Obeys Gripping (fun q _ => q = .exempt held) (.exempt held) := by
  refine obeys_of_makes (P := Gripping) (I := fun q : Grip => q = .exempt held) (fun q c hq hc => ?_) hp rfl
  obtain rfl := hq
  have hc := hc.inner hin
  refine ⟨Grip.allows_inner hc rfl fun _ => trivial, fun a => ?_⟩
  cases c <;> first | rfl | exact absurd rfl hc.1 | exact absurd rfl hc.2

theorem obeys_exempt_holding {p : Prog Api α}
    (hp : p.Obeys Gripping (fun q _ => q = .exempt (some h)) (.exempt (some h))) :
    (holding h p).Obeys Gripping (fun q _ => q = .exempt none) (.exempt none) := by
  refine obeys_call ⟨rfl, rfl, nofun⟩ fun _ => obeys_bind.2 (hp.mono fun q r hq => ?_)
  refine Prog.Obeys.mono (fun q' r' hq' => ?_) (obeys_release (h := h) (by rw [hq]) (by rw [hq]))
  rw [hq'.1, hq]
  rfl

theorem obeys_then {p : Prog Api α} {f : α → Prog Api β} {post : Grip → β → Prop}
    (hp : p.Obeys Gripping (fun q' _ => q' = q) q) (hf : ∀ a, (f a).Obeys Gripping post q) :
    (p >>= f).Obeys Gripping post q :=
  obeys_bind.2 (hp.mono fun _ a hq => hq ▸ hf a)

end Rules

/-! ## The routes that take the gate themselves -/

section Programs

variable {α : Type} {tokenHash : Bytes}

theorem gripping_withAdminToken {p : Prog Api (ApiResult α)} {q : Grip} (hheld : q.held = none)
    (hstage : q.stage = .idle) (hp : p.Obeys Gripping Grip.Free q) :
    (withAdminToken tokenHash p).Obeys Gripping Grip.Free q := by
  refine obeys_call (Grip.allows_inner ⟨nofun, nofun⟩ hstage nofun) fun isAdmin => ?_
  cases isAdmin with
  | true => exact hp
  | false => exact ⟨hheld, hstage⟩

theorem gripping_login (username : Text) (verify : Text → Bool) (account : Option Account) (random : Text) :
    (login username verify account tokenHash random).Obeys Gripping Grip.Free {} := by
  have hreads : (loginReads username).Obeys Gripping (Grip.Read fun r => some r.1) (.shared none) := by
    refine obeys_look rfl nofun fun found => ?_
    split
    · refine obeys_look rfl nofun fun hash => ?_
      exact obeys_call ⟨trivial, rfl, nofun⟩ fun n => ⟨rfl, rfl, fun g hg => by cases hg; rfl⟩
    · exact obeys_call ⟨trivial, rfl, nofun⟩ fun n => ⟨rfl, rfl, fun g hg => by cases hg; rfl⟩
  refine obeys_bind.2 (Prog.Obeys.mono (fun q r hq => ?_) (obeys_reading hreads))
  obtain rfl := hq.2 r.1 rfl
  exact obeys_writing (fun _ => beq_iff_eq.1) (within_loginWrites within_finish fun _ => within_readBack)
    rfl

theorem gripping_ssoSignIn (account : Account) : (ssoSignIn account tokenHash).Obeys Gripping Grip.Free {} := by
  have hreads : ssoReads.Obeys Gripping (Grip.Read fun r => some r.1) (.shared none) := by
    have hpassword : Within [] (Vault.directoryPassword .service) := Vault.within_directoryPassword
    refine obeys_call ⟨trivial, rfl, nofun⟩ fun n => obeys_bind.2 ?_
    refine Prog.Obeys.mono (fun q r hq => ?_) (obeys_known hpassword rfl)
    rw [hq]
    exact ⟨rfl, rfl, fun g hg => by cases hg; rfl⟩
  refine obeys_bind.2 (Prog.Obeys.mono (fun q r hq => ?_) (obeys_reading hreads))
  obtain rfl := hq.2 r.1 rfl
  obtain ⟨generation, password⟩ := r
  match password with
  | .error _ | .ok none => exact ⟨rfl, rfl⟩
  | .ok (some _) =>
    simp only []
    split
    · exact ⟨rfl, rfl⟩
    · exact obeys_writing (fun _ => beq_iff_eq.1)
        (within_loginWrites within_finishDirectory fun _ => within_pure) rfl

theorem gripping_adminReads {β : Type} {read : Prog Api β}
    (hread : read.Obeys Gripping (fun q _ => q = .shared none) (.shared none)) :
    (adminReads tokenHash read).Obeys Gripping (Grip.Read fun r => r.toOption.map Prod.snd) (.shared none) := by
  refine obeys_look rfl nofun fun user => ?_
  cases user with
  | none => exact ⟨rfl, rfl, nofun⟩
  | some user =>
    refine obeys_look rfl nofun fun isAdmin => ?_
    cases isAdmin with
    | false => exact ⟨rfl, rfl, nofun⟩
    | true =>
      refine obeys_look rfl nofun fun frozen => ?_
      cases frozen with
      | true => exact ⟨rfl, rfl, nofun⟩
      | false =>
        refine obeys_then hread fun found => ?_
        exact obeys_call ⟨trivial, rfl, nofun⟩ fun n => ⟨rfl, rfl, fun g hg => by cases hg; rfl⟩

theorem gripping_lookupPassword : lookupPassword.Obeys Gripping (fun q _ => q = .shared none) (.shared none) := by
  refine obeys_bind.2 (obeys_look rfl nofun fun stored => ?_)
  cases stored with
  | none => exact rfl
  | some value =>
    refine obeys_look rfl nofun fun key => ?_
    cases key with
    | none => exact rfl
    | some key =>
      simp only []
      split <;> exact rfl

theorem gripping_addUser (username : Text) (lookup : Except Unit (Option Account)) :
    (addUser tokenHash username lookup).Obeys Gripping Grip.Free {} := by
  refine gripping_withAdminToken rfl rfl (obeys_bind.2 ?_)
  refine Prog.Obeys.mono (fun q r hq => ?_) (obeys_reading (gripping_adminReads gripping_lookupPassword))
  cases r with
  | error e => exact hq.1
  | ok r =>
    obtain rfl := hq.2 r.2 rfl
    simp only []
    split
    · exact ⟨rfl, rfl⟩
    · refine obeys_writing (fun _ => beq_iff_eq.1) (?_ : Within [.user, .note] _) rfl
      refine within_adminWrites fun _ => within_ask rfl fun created => ?_
      split
      · exact within_pure
      · exact within_audited rfl

theorem gripping_setDirectoryPassword (password : Text) (probe : ApiResult Unit) :
    (setDirectoryPassword tokenHash password probe).Obeys Gripping Grip.Free {} := by
  refine gripping_withAdminToken rfl rfl ?_
  split
  · exact ⟨rfl, rfl⟩
  refine obeys_bind.2 ?_
  have hread : (pure () : Prog Api Unit).Obeys Gripping (fun q _ => q = .shared none) (.shared none) := rfl
  refine Prog.Obeys.mono (fun q r hq => ?_) (obeys_reading (gripping_adminReads hread))
  cases r with
  | error e => exact hq.1
  | ok r =>
    obtain rfl := hq.2 r.2 rfl
    cases probe with
    | error e => exact ⟨rfl, rfl⟩
    | ok u =>
      refine obeys_writing (fun _ => beq_iff_eq.1) (?_ : Within [.secret, .note] _) rfl
      refine within_adminWrites fun _ => ?_
      refine ((Vault.within_setDirectoryPassword Vault.within_service password).mono (by decide)).bind fun set => ?_
      split
      · exact within_pure
      · exact within_audited rfl

theorem gripping_uploadImport (upload : ApiResult Text) :
    (uploadImport tokenHash upload).Obeys Gripping Grip.Free {} := by
  refine gripping_withAdminToken rfl rfl (obeys_holding (?_ : Within [.note] _) rfl trivial)
  refine within_withAdmin fun admin => ?_
  split
  · exact within_pure
  · exact within_ask rfl fun _ => within_audited rfl

theorem gripping_revocationPass (lookupEach : LookupEach) :
    (revocationPass lookupEach).Obeys Gripping Grip.Free {} := by
  have hreads : passReads.Obeys Gripping (Grip.Read fun r => r.toOption.bind fun found => found.map Prod.fst)
      (.shared none) := by
    refine obeys_bind.2 (obeys_look rfl nofun fun stored => ?_)
    cases stored with
    | none => exact ⟨rfl, rfl, nofun⟩
    | some value =>
      refine obeys_look rfl nofun fun key => ?_
      cases key with
      | none => exact ⟨rfl, rfl, nofun⟩
      | some key =>
        simp only []
        split
        · exact ⟨rfl, rfl, nofun⟩
        · have husers : Within [] usersToCheck := within_usersToCheck
          refine obeys_call ⟨trivial, rfl, nofun⟩ fun n => obeys_bind.2 ?_
          refine Prog.Obeys.mono (fun q r hq => ?_) (obeys_known husers rfl)
          rw [hq]
          exact ⟨rfl, rfl, fun g hg => by cases hg; rfl⟩
  refine obeys_bind.2 (Prog.Obeys.mono (fun q r hq => ?_) (obeys_reading hreads))
  match r with
  | .error e | .ok none => exact hq.1
  | .ok (some (generation, users)) =>
    obtain rfl := hq.2 generation rfl
    simp only []
    split
    · exact ⟨rfl, rfl⟩
    · cases lookupEach (users.map lookupName) with
      | none => exact ⟨rfl, rfl⟩
      | some found => exact obeys_writing (fun _ => beq_iff_eq.1) within_passWrites rfl

/-! ## Connections -/

theorem gripping_recordOpen (liveId : Nat) (user : User) (target : Server) (addr : Text) :
    (recordOpen liveId user target addr).Obeys Gripping Grip.Free ⟨none, .idle, .before (.entry liveId)⟩ := by
  refine Prog.Obeys.mono (fun q r hq => hq.1) (obeys_entry (?_ : Within [.note] _) rfl)
  exact within_ask rfl fun _ => within_pure

theorem gripping_recordEnd (e : Ended) :
    (recordEnd e).Obeys Gripping Grip.Free
      ⟨none, .idle, if e.established then .before (.generation e.generation) else .lost⟩ := by
  unfold recordEnd
  split
  · rename_i hestablished _ _
    rw [hestablished, if_pos rfl]
    refine obeys_writing (fun _ h => (beq_iff_eq.1 h).symm) (?_ : Within [.ended] _) rfl
    refine within_ask rfl fun generation => ?_
    split
    · exact within_ask rfl fun _ => within_pure
    · exact within_pure
  · exact ⟨rfl, rfl⟩

/-- An admission lets through only what it read in one database. -/
def Grip.Admitted (q : Grip) (r : Except Refusal Server) : Prop :=
  q.held = none ∧ q.stage = .idle ∧ ∀ target, r = .ok target → ∃ g, q.trust = .before (.generation g)

theorem within_checkTicket (liveId : Nat) (user : User) (targetId : Text) (ticket : Ticket) :
    Within [.entry] (checkTicket liveId user tokenHash targetId ticket) := by
  refine within_ask rfl fun _ => within_ask rfl fun found => ?_
  split
  · exact within_pure
  split
  · refine within_resolve.bind fun resolved => ?_
    split
    · exact within_pure
    · exact within_pure
    split
    · refine within_ask rfl fun rows => ?_
      cases rows with
      | none => exact within_pure
      | some rows => exact within_ask rfl fun _ => within_pure
    · exact within_pure
  · exact within_pure

theorem gripping_admit (liveId : Nat) (user : User) (targetId proxyAuth : Text) :
    (admitSession liveId user tokenHash targetId proxyAuth).Obeys Gripping Grip.Admitted
      ⟨none, .idle, .before (.entry liveId)⟩ := by
  refine Prog.Obeys.mono ?_ (obeys_entry (?_ : Within [.ticket, .entry] _) rfl)
  · intro q r hq
    refine ⟨hq.1.1, hq.1.2, fun target hr => hq.2.resolve_left ?_⟩
    rw [hr]
    exact nofun
  · refine within_ask rfl fun ticket => ?_
    split
    · exact within_pure
    split
    · exact (within_checkTicket _ _ _ _).mono (by decide)
    · exact within_pure

/-! ## Exports and imports -/

theorem gripping_copyDatabase (passphrase : Text) (freeze : Bool) (fate : Fate) :
    (copyDatabase tokenHash passphrase freeze fate).Obeys Gripping (fun q _ => q = .exempt none) (.exempt none) := by
  unfold copyDatabase
  split
  · exact obeys_exempt_holding (obeys_exempt within_freezeAndCopy rfl)
  · have hcopy : Within [] (plainCopy tokenHash passphrase fate) := within_plainCopy
    exact obeys_exempt_holding (obeys_exempt hcopy rfl)

theorem gripping_abandon (c : Copied) : (abandon c).Obeys Gripping (fun q _ => q = .exempt none) (.exempt none) := by
  have hunlock : (ask .unlockExport).Obeys Gripping (fun q _ => q = .exempt none) (.exempt none) :=
    obeys_exempt ((within_ask_last rfl : Within [.lock] (ask .unlockExport))) rfl
  unfold abandon
  split
  · refine obeys_then (obeys_exempt_holding (obeys_exempt (?_ : Within [.flag] _) rfl)) fun _ => hunlock
    refine within_ask rfl fun current => ?_
    split
    · exact within_lift
    · exact within_pure
  · exact hunlock

theorem gripping_recordExport (c : Copied) (freeze : Bool) (fileName : Text) (fate : Fate) :
    (recordExport c freeze fileName fate).Obeys Gripping (fun q _ => q = .exempt none) (.exempt none) := by
  refine obeys_exempt_holding (obeys_exempt (?_ : Within [.note] _) rfl)
  split
  · refine within_ask rfl fun current => ?_
    split
    · exact within_ask rfl fun _ => within_pure
    · exact within_pure
  · exact within_pure

theorem gripping_handOver (c : Copied) : (handOver c).Obeys Gripping (fun q _ => q = .exempt none) (.exempt none) := by
  refine obeys_then (obeys_exempt_holding (obeys_exempt (?_ : Within [.flag] _) rfl)) fun _ => ?_
  · refine within_ask rfl fun current => ?_
    split
    · exact within_ask_last rfl
    · exact within_pure
  · exact obeys_exempt ((within_ask_last rfl : Within [.lock] (ask .unlockExport))) rfl

theorem gripping_deliver (passphrase : Text) (freeze : Bool) (fileName : Text) (fate : Fate) (c : Copied) :
    (deliver passphrase freeze fileName fate c).Obeys Gripping Grip.Free (.exempt none) := by
  have habandon : ∀ e : ApiError, (abandon c >>= fun _ => (pure (.error e) : Prog Api (ApiResult Archive))).Obeys
      Gripping Grip.Free (.exempt none) := fun e => obeys_then (gripping_abandon c) fun _ => ⟨rfl, rfl⟩
  unfold deliver
  split
  · refine obeys_then (gripping_recordExport c freeze fileName fate) fun recorded => ?_
    split
    · split
      · split
        · exact obeys_then (gripping_handOver c) fun _ => ⟨rfl, rfl⟩
        · exact obeys_call ⟨trivial, rfl, nofun⟩ fun _ => ⟨rfl, rfl⟩
      · exact habandon _
    · exact habandon _
  · exact habandon _

theorem gripping_exportDatabase (passphrase : Text) (freeze : Bool) (fileName : Text) (fate : Fate) :
    (exportDatabase tokenHash passphrase freeze fileName fate).Obeys Gripping Grip.Free (.exempt none) := by
  refine gripping_withAdminToken rfl rfl (obeys_call ⟨trivial, rfl, nofun⟩ fun wrapped => ?_)
  split
  · exact ⟨rfl, rfl⟩
  refine obeys_call ⟨trivial, rfl, nofun⟩ fun _ => obeys_then (gripping_copyDatabase passphrase freeze fate) ?_
  intro copied
  cases copied with
  | error e => exact obeys_call ⟨trivial, rfl, nofun⟩ fun _ => ⟨rfl, rfl⟩
  | ok c => exact gripping_deliver passphrase freeze fileName fate c

theorem gripping_swap (key : Key) (db : Store) :
    (swap key db).Obeys Gripping (fun q _ => q = .exempt (some .exclusive)) (.exempt (some .exclusive)) := by
  refine obeys_call ⟨⟨rfl, rfl⟩, rfl, fun _ => trivial⟩ fun _ => ?_
  refine obeys_call ⟨trivial, rfl, fun _ => trivial⟩ fun _ => ?_
  refine obeys_call ⟨trivial, .inr rfl, fun _ => trivial⟩ fun _ => ?_
  refine obeys_call ⟨trivial, rfl, fun _ => trivial⟩ fun _ => obeys_call ⟨trivial, rfl, fun _ => trivial⟩ fun _ => ?_
  exact rfl

theorem gripping_importExclusive (wanted : Bool) (upload : Option Archive) (passphrase : Text)
    (confirmHost : Option Text) (installed : Except Text Unit) :
    (importExclusive tokenHash wanted upload passphrase confirmHost installed).Obeys Gripping Grip.Free
      (.exempt none) := by
  have hlook : ∀ {γ : Type} {c : Call} {f : c.Answer → Prog Api γ} {post : Grip → γ → Prop}, c.tag = .look →
      (∀ a, (f a).Obeys Gripping post (.exempt (some .exclusive))) →
      (ask c >>= f).Obeys Gripping post (.exempt (some .exclusive)) := by
    intro γ c f post hc hf
    exact obeys_then (obeys_exempt (within_ask_last (by rw [hc]; rfl) : Within [] (ask c)) rfl) hf
  have happly : ∀ blob, (applyImport blob passphrase installed).Obeys Gripping
      (fun q _ => q = .exempt (some .exclusive)) (.exempt (some .exclusive)) := by
    intro blob
    unfold applyImport
    split
    · exact rfl
    refine hlook rfl fun _ => hlook rfl fun _ => ?_
    split
    · exact rfl
    refine hlook rfl fun _ => ?_
    split
    · exact rfl
    · exact obeys_then (gripping_swap _ _) fun _ => rfl
  refine gripping_withAdminToken rfl rfl (Prog.Obeys.mono (fun q r hq => ?_) (obeys_exempt_holding ?_))
  · rw [hq]
    exact ⟨rfl, rfl⟩
  split
  · refine obeys_bind.2 (hlook rfl fun user => ?_)
    cases user with
    | none => exact rfl
    | some user =>
      refine hlook rfl fun isAdmin => ?_
      cases isAdmin with
      | false => exact rfl
      | true =>
        refine obeys_then ?_ fun confirmed => ?_
        · unfold confirmImport
          split
          · exact rfl
          · refine hlook rfl fun _ => hlook rfl fun _ => ?_
            split
            · exact rfl
            · exact happly _
        · cases confirmed with
          | error e => exact rfl
          | ok counts => exact obeys_exempt (within_audited rfl : Within [.note] _) rfl
  · exact rfl

end Programs

/-! ## All requests -/

namespace Route

def selfGated : Route → Bool
  | login .. | ssoSignIn .. | addUser .. | setDirectoryPassword .. | exportDatabase .. | uploadImport ..
  | confirmImport .. => true
  | _ => false

theorem routeIn_selfGatedRoutes (r : Route) : routeIn selfGatedRoutes r.method r.path = r.selfGated := by
  cases r with
  | page isHead => cases isHead <;> rfl
  | _ => rfl

variable {r : Route}

theorem footprint_inner (h : r.selfGated = false) : innerTags r.footprint = true := by
  cases r <;> first | rfl | cases h

/-- What is asked of a route: nothing of exports and imports, which are about the database itself. -/
def trust : Route → Trust
  | exportDatabase .. | confirmImport .. => .exempt
  | _ => .blank

theorem gripping_plain {p : Prog Api (ApiResult Unit)} {q : Grip} (hp : p.Obeys Gripping Grip.Free q) :
    (plain p).Obeys Gripping Grip.Free q := obeys_bind.2 (hp.mono fun _ _ hq => hq)

theorem gripping_handler (h : r.selfGated = true) : r.handler.Obeys Gripping Grip.Free ⟨none, .idle, r.trust⟩ := by
  cases r with
  | login => exact gripping_plain (gripping_login ..)
  | ssoSignIn => exact gripping_plain (gripping_ssoSignIn _)
  | addUser => exact gripping_plain (gripping_addUser ..)
  | setDirectoryPassword => exact gripping_plain (gripping_setDirectoryPassword ..)
  | uploadImport => exact gripping_plain (gripping_uploadImport _)
  | confirmImport => exact gripping_plain (gripping_importExclusive ..)
  | exportDatabase => exact obeys_bind.2 ((gripping_exportDatabase ..).mono fun _ _ hq => hq)
  | _ => cases h

theorem gripping_program (r : Route) (sent : Option Text) :
    (r.program sent).Obeys Gripping Grip.Free ⟨none, .idle, r.trust⟩ := by
  unfold program gateRequests
  rw [routeIn_selfGatedRoutes]
  cases h : r.selfGated with
  | true =>
    refine obeys_bind.2 ((gripping_handler h).mono fun q r hq => ?_)
    exact obeys_call (Grip.allows_inner ⟨nofun, nofun⟩ hq.2 nofun) fun _ => hq
  | false =>
    refine obeys_holding (within_stamped (within_checkInstance r.within_handler)) (footprint_inner h) ?_
    cases r <;> trivial

end Route

namespace Request

/-- What a request knows as it starts: nothing, or what its connection read. -/
def trust : Request → Trust
  | http r _ => r.trust
  | revocationPass _ => .blank
  | recordOpen liveId .. => .before (.entry liveId)
  | recordEnd e => if e.established then .before (.generation e.generation) else .lost
  | report .. | tool _ => .exempt

theorem gripping_program (r : Request) : r.program.Obeys Gripping Grip.Free ⟨none, .idle, r.trust⟩ := by
  cases r with
  | http r sent => exact r.gripping_program sent
  | revocationPass lookupEach => exact Route.gripping_plain (gripping_revocationPass lookupEach)
  | recordOpen liveId user target addr =>
    refine obeys_bind.2 ((gripping_recordOpen liveId user target addr).mono fun q recorded hq => ?_)
    cases recorded <;> exact hq
  | recordEnd e => exact obeys_bind.2 ((gripping_recordEnd e).mono fun _ _ hq => hq)
  | report user server database r =>
    have hwithin : Within [.notice, .note] (WebAccess.report user server database r) := within_report
    refine Route.gripping_plain (Prog.Obeys.mono (fun q _ hq => ?_) (obeys_exempt hwithin rfl))
    rw [hq]
    exact ⟨rfl, rfl⟩
  | tool t =>
    refine obeys_bind.2 (Prog.Obeys.mono (fun q _ hq => ?_) (obeys_exempt (within_tool t) rfl))
    rw [hq]
    exact ⟨rfl, rfl⟩

end Request

end WebAccess
