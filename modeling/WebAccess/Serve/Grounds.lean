/-
What a connection stands on, and who has to end it. Admission checks three facts of the database:
the sign-in session, the server, the assignment. Whoever takes one of them away owes a sweep of
the registry that hits every connection standing on it. Two protocols say what the programs do
about that: a request that deletes owes until it has swept (`Sweeping`), and an admission records
its server before the first check, so that its entry stands on what it has checked (`Admitting`).
-/
import WebAccess.Serve.Footprints

namespace WebAccess

open Codec Wire Process

/-! ## Grounds -/

/-- A fact of the database a connection was admitted on. -/
inductive Ground
  | signIn (tokenHash : Bytes) (userId : Int)
  | server (serverId : Int)
  | assignment (userId serverId : Int)

/-- What the database says of a fact an admission rests on. -/
def Ground.Holds (s : Store) : Ground → Prop
  | signIn tokenHash userId => ∃ r ∈ s.sessions, r.tokenHash = tokenHash ∧ r.userId = userId
  | server serverId => ∃ v ∈ s.servers.rows, v.id = serverId
  | assignment userId serverId => (userId, serverId) ∈ s.assignments

instance (s : Store) : (g : Ground) → Decidable (g.Holds s)
  | .signIn tokenHash userId => inferInstanceAs (Decidable (∃ r ∈ s.sessions, r.tokenHash = tokenHash ∧
    r.userId = userId))
  | .server serverId => inferInstanceAs (Decidable (∃ v ∈ s.servers.rows, v.id = serverId))
  | .assignment userId serverId => inferInstanceAs (Decidable ((userId, serverId) ∈ s.assignments))

/-- An entry of the registry shows that its connection stands on the fact. -/
def Live.StandsOn (l : Live) : Ground → Prop
  | .signIn tokenHash userId => l.tokenHash = tokenHash ∧ l.userId = userId
  | .server serverId => l.serverId = some serverId
  | .assignment userId serverId => l.userId = userId ∧ l.serverId = some serverId

/-- The sweep reaches whatever stands on the fact. -/
def Sweep.Covers : Sweep → Ground → Prop
  | user userId, .signIn _ userId' => userId = userId'
  | user userId, .assignment userId' _ => userId = userId'
  | userServer userId serverId, .assignment userId' serverId' => userId = userId' ∧ serverId = serverId'
  | server serverId, .server serverId' => serverId = serverId'
  | server serverId, .assignment _ serverId' => serverId = serverId'
  | session tokenHash, .signIn tokenHash' _ => tokenHash = tokenHash'
  | all, _ => True
  | _, _ => False

theorem Sweep.hits_of_covers {w : Sweep} {g : Ground} {l : Live} (hw : w.Covers g) (hl : l.StandsOn g) :
    w.hits l = true := by
  cases w <;> cases g <;> simp_all [Covers, Live.StandsOn, hits]

/-! ## What a request owes -/

/-- What a request has read of a user's assignments, and the sweeps it still has to make. -/
structure Owing where
  before : List Int := []
  owed : List Sweep := []

/-- The calls that leave what is owed, and what was read before, alone. -/
def Call.plain : Call → Bool
  | .assignmentIds _ | .sweep _ | .replaceWith _ => false
  | c => c.tag != .revoke

/-- The sweeps an answered call makes due, given what was read before. -/
def due (before : List Int) : Event Api → List Sweep
  | ⟨.sessionDelete tokenHash, _⟩ => [.session tokenHash]
  | ⟨.userDelete id, .ok ()⟩ => [.user id]
  | ⟨.userClearSid id, .ok ()⟩ => [.user id]
  | ⟨.sessionsDeleteUser id, _⟩ => [.user id]
  | ⟨.serverDelete id, .ok ()⟩ => [.server id]
  | ⟨.setAssignments id ids, .ok _⟩ => (before.filter fun s => !ids.contains s).map (.userServer id)
  | ⟨.replaceWith _, _⟩ => [.all]
  | _ => []

/-- What is owed after a call: a deletion makes sweeps due, and a sweep pays for itself. -/
def Owing.next (q : Owing) : Event Api → Owing
  | ⟨.assignmentIds _, ids⟩ => { q with before := ids }
  | ⟨.sweep w, _⟩ => { q with owed := q.owed.filter (· != w) }
  | e => { q with owed := q.owed ++ due q.before e }

/-- A request owes what its deletions make due until it has swept. -/
abbrev Sweeping : Protocol Api := ⟨Owing, fun _ _ => True, Owing.next⟩

def Settled {α : Type} (q : Owing) (_ : α) : Prop := q.owed = []

section Requests

variable {α : Type} {q : Owing} {tags : List Tag}

variable {c : Call} {w : Sweep}

theorem Owing.next_plain (hc : c.plain = true) (a : c.Answer) : q.next ⟨c, a⟩ = q := by
  cases c <;> first | exact absurd hc Bool.false_ne_true | simp [Owing.next, due]

theorem obeys_plain {f : c.Answer → Prog Api α} {post : Owing → α → Prop} (hc : c.plain = true)
    (h : ∀ a, (f a).Obeys Sweeping post q) : (ask c >>= f).Obeys Sweeping post q := by
  refine obeys_call trivial fun a => ?_
  have ha : Sweeping.next q ⟨c, a⟩ = q := Owing.next_plain hc a
  rw [ha]
  exact h a

theorem obeys_sweep {f : Nat → Prog Api α} {post : Owing → α → Prop}
    (h : ∀ n, (f n).Obeys Sweeping post { q with owed := q.owed.filter (· != w) }) :
    (ask (.sweep w) >>= f).Obeys Sweeping post q :=
  obeys_call (P := Sweeping) trivial h

theorem settled_of_within {p : Prog Api α} (hp : Within tags p) (hrevoke : tags.contains .revoke = false)
    (hswap : tags.contains .swap = false) (hq : q.owed = []) : p.Obeys Sweeping Settled q := by
  refine obeys_of_makes (P := Sweeping) (I := fun q => q.owed = []) (fun q c hq hc => ⟨trivial, fun a => ?_⟩) hp hq
  simp only [List.contains_eq_mem, decide_eq_false_iff_not] at hrevoke hswap
  rw [Call.among, List.contains_iff_mem, List.mem_cons] at hc
  cases c <;> first
    | (simp [Owing.next, due, hq]; done)
    | exact absurd (hc.resolve_left (by rintro ⟨⟩)) hrevoke
    | exact absurd (hc.resolve_left (by rintro ⟨⟩)) hswap

theorem settled_bind {β : Type} {p : Prog Api α} {f : α → Prog Api β} (hp : p.Obeys Sweeping Settled q)
    (hf : ∀ {q'} a, q'.owed = [] → (f a).Obeys Sweeping Settled q') : (p >>= f).Obeys Sweeping Settled q :=
  obeys_bind.2 (hp.mono fun _ a hq' => hf a hq')

theorem settled_audited (actor action detail : Text) (hq : q.owed = []) :
    (audited actor action detail).Obeys Sweeping Settled q :=
  settled_of_within (within_audited rfl : Within [.note] _) rfl rfl hq

variable {tokenHash : Bytes}

theorem settled_withCurrentUser {handler : User → Prog Api (ApiResult α)} (hq : q.owed = [])
    (h : ∀ u, (handler u).Obeys Sweeping Settled q) :
    (withCurrentUser tokenHash handler).Obeys Sweeping Settled q := by
  refine obeys_plain rfl fun found => ?_
  cases found with
  | none => exact hq
  | some u => exact h u

theorem settled_withAdmin {handler : User → Prog Api (ApiResult α)} (hq : q.owed = [])
    (h : ∀ u, (handler u).Obeys Sweeping Settled q) : (withAdmin tokenHash handler).Obeys Sweeping Settled q := by
  refine obeys_plain rfl fun found => ?_
  cases found with
  | none => exact hq
  | some u =>
    refine obeys_plain rfl fun isAdmin => ?_
    cases isAdmin with
    | true => exact h u
    | false => exact hq

theorem settled_withEditor {change : User → Prog Api (ApiResult α)} (hq : q.owed = [])
    (h : ∀ u, (change u).Obeys Sweeping Settled q) : (withEditor tokenHash change).Obeys Sweeping Settled q := by
  refine settled_withAdmin hq fun u => obeys_plain rfl fun frozen => ?_
  cases frozen with
  | true => exact hq
  | false => exact h u

theorem settled_changeUser {id : Int} {change : User → User → Prog Api (ApiResult Unit)} (hq : q.owed = [])
    (h : ∀ admin u, (change admin u).Obeys Sweeping Settled q) :
    (changeUser tokenHash id change).Obeys Sweeping Settled q := by
  refine settled_withEditor hq fun admin => obeys_plain rfl fun found => ?_
  cases found with
  | none => exact hq
  | some u => exact h admin u

theorem settled_holding {h : Hold} {p : Prog Api α} (hp : p.Obeys Sweeping Settled q) :
    (holding h p).Obeys Sweeping Settled q := by
  refine obeys_plain rfl fun _ => settled_bind hp fun r hq' => ?_
  exact obeys_plain rfl fun _ => hq'

/-! ### The requests that take access away -/

theorem settled_ends {actor action detail : Text} (hq : q.owed = []) :
    ((do
      let _ ← ask (.sweep w)
      audited actor action detail) : Prog Api (ApiResult Unit)).Obeys Sweeping Settled
      { q with owed := q.owed ++ [w] } :=
  obeys_sweep fun _ => settled_audited _ _ _ (by simp [hq])

theorem settled_logout (tokenHash : Bytes) (hq : q.owed = []) : (logout tokenHash).Obeys Sweeping Settled q :=
  settled_withCurrentUser hq fun _ => obeys_call (P := Sweeping) trivial fun _ => settled_ends hq

theorem settled_removeUser (tokenHash : Bytes) (id : Int) (hq : q.owed = []) :
    (removeUser tokenHash id).Obeys Sweeping Settled q := by
  refine settled_changeUser hq fun admin u => obeys_call (P := Sweeping) trivial fun deleted => ?_
  cases deleted with
  | error _ => exact (List.append_nil _).trans hq
  | ok _ => exact settled_ends hq

theorem settled_clearSid (tokenHash : Bytes) (id : Int) (hq : q.owed = []) :
    (clearSid tokenHash id).Obeys Sweeping Settled q := by
  refine settled_changeUser hq fun admin u => obeys_call (P := Sweeping) trivial fun cleared => ?_
  cases cleared with
  | error _ => exact (List.append_nil _).trans hq
  | ok _ => exact settled_ends hq

theorem settled_removeServer (tokenHash : Bytes) (id : Int) (hq : q.owed = []) :
    (removeServer tokenHash id).Obeys Sweeping Settled q := by
  refine settled_withEditor hq fun admin => obeys_plain rfl fun found => ?_
  cases found with
  | none => exact hq
  | some _ =>
    refine obeys_call (P := Sweeping) trivial fun deleted => ?_
    cases deleted with
    | error _ => exact (List.append_nil _).trans hq
    | ok _ => exact settled_ends hq

theorem settled_endGone (userId : Int) : ∀ (gone : List Int) {q : Owing},
    (∀ w ∈ q.owed, ∃ s ∈ gone, w = .userServer userId s) → (endGone userId gone).Obeys Sweeping Settled q
  | [], _, h => List.eq_nil_iff_forall_not_mem.2 fun w hw => by simpa using h w hw
  | s :: gone, q, h => by
    refine obeys_sweep fun _ => settled_endGone userId gone fun w hw => ?_
    rw [List.mem_filter, bne_iff_ne] at hw
    obtain ⟨s', hs', rfl⟩ := h w hw.1
    rcases List.mem_cons.1 hs' with rfl | hs'
    · exact absurd rfl hw.2
    · exact ⟨s', hs', rfl⟩

theorem settled_setUserServers (tokenHash : Bytes) (id : Int) (serverIds : List Int) (hq : q.owed = []) :
    (setUserServers tokenHash id serverIds).Obeys Sweeping Settled q := by
  refine settled_changeUser hq fun admin u => obeys_call (P := Sweeping) trivial fun before => ?_
  refine obeys_call (P := Sweeping) trivial fun set => ?_
  cases set with
  | error _ => exact (List.append_nil _).trans hq
  | ok _ =>
    refine settled_bind (settled_endGone id _ fun w hw => ?_) fun _ hq' => ?_
    · obtain ⟨s, hs, rfl⟩ := List.mem_map.1 ((List.mem_append.1 hw).resolve_left (hq ▸ List.not_mem_nil))
      exact ⟨s, hs, rfl⟩
    · exact settled_of_within within_auditServers rfl rfl hq'

theorem settled_applyLookups : ∀ (found : List (User × Lookup)) (pass : Pass) {q : Owing}, q.owed = [] →
    (applyLookups pass found).Obeys Sweeping Settled q
  | [], _, _, hq => hq
  | (_, _, .error ()) :: rest, _, _, hq => settled_applyLookups rest _ hq
  | (checked, _, .ok account) :: rest, pass, q, hq => by
    refine obeys_plain rfl fun found => ?_
    split
    · exact settled_applyLookups rest _ hq
    · split
      · refine obeys_call (P := Sweeping) trivial fun _ => obeys_sweep fun _ => settled_applyLookups rest _ ?_
        exact show List.filter _ (q.owed ++ [_]) = [] by simp [hq]
      · exact settled_applyLookups rest _ hq

theorem settled_revocationPass (lookupEach : LookupEach) (hq : q.owed = []) :
    (revocationPass lookupEach).Obeys Sweeping Settled q := by
  have hwithin : Within [] passReads := within_passReads
  have hreads := settled_of_within (within_holding (h := .shared) hwithin) rfl rfl hq
  refine settled_bind hreads fun read hq' => ?_
  split
  · exact hq'
  · exact hq'
  split
  · exact hq'
  split
  · exact hq'
  refine settled_holding (obeys_plain rfl fun current => ?_)
  split
  · exact settled_bind (settled_applyLookups _ _ hq') fun _ hq'' => hq''
  · exact hq'

theorem settled_swap (key : Key) (db : Store) (hq : q.owed = []) : (swap key db).Obeys Sweeping Settled q := by
  refine obeys_call (P := Sweeping) trivial fun _ => ?_
  refine obeys_plain rfl fun _ => ?_
  refine obeys_plain rfl fun _ => ?_
  refine obeys_plain rfl fun _ => obeys_sweep fun _ => ?_
  exact show List.filter _ (q.owed ++ [_]) = [] by simp [hq]

theorem settled_applyImport (blob : Archive) (passphrase : Text) (installed : Except Text Unit) (hq : q.owed = []) :
    (applyImport blob passphrase installed).Obeys Sweeping Settled q := by
  unfold applyImport
  split
  · exact hq
  refine obeys_plain rfl fun protector => ?_
  refine obeys_plain rfl fun token => ?_
  split
  · exact hq
  refine obeys_plain rfl fun _ => ?_
  split
  · exact hq
  · exact settled_bind (settled_swap _ _ hq) fun _ hq' => hq'

theorem settled_confirmImport (upload : Option Archive) (passphrase : Text) (confirmHost : Option Text)
    (installed : Except Text Unit) (hq : q.owed = []) :
    (confirmImport upload passphrase confirmHost installed).Obeys Sweeping Settled q := by
  unfold confirmImport
  split
  · exact hq
  refine obeys_plain rfl fun current => ?_
  refine obeys_plain rfl fun hostName => ?_
  split
  · exact hq
  · exact settled_applyImport _ _ _ hq

theorem settled_importExclusive (tokenHash : Bytes) (wanted : Bool) (upload : Option Archive) (passphrase : Text)
    (confirmHost : Option Text) (installed : Except Text Unit) (hq : q.owed = []) :
    (importExclusive tokenHash wanted upload passphrase confirmHost installed).Obeys Sweeping Settled q := by
  refine obeys_plain rfl fun isAdmin => ?_
  split
  swap
  · exact hq
  refine settled_holding ?_
  split
  · refine settled_withAdmin hq fun admin => settled_bind (settled_confirmImport _ _ _ _ hq) fun done hq' => ?_
    split
    · exact hq'
    · exact settled_audited _ _ _ hq'
  · exact hq

/-! ### All requests -/

theorem settled_plain {p : Prog Api (ApiResult Unit)} (hp : p.Obeys Sweeping Settled q) :
    (Route.plain p).Obeys Sweeping Settled q := settled_bind hp fun _ hq' => hq'

theorem settled_handler (r : Route) (hq : q.owed = []) : r.handler.Obeys Sweeping Settled q := by
  cases r with
  | logout => exact settled_plain (settled_logout _ hq)
  | removeUser => exact settled_plain (settled_removeUser _ _ hq)
  | setUserServers => exact settled_plain (settled_setUserServers _ _ _ hq)
  | clearSid => exact settled_plain (settled_clearSid _ _ hq)
  | removeServer => exact settled_plain (settled_removeServer _ _ hq)
  | confirmImport => exact settled_plain (settled_importExclusive _ _ _ _ _ _ hq)
  | _ => exact settled_of_within (Route.within_handler _) rfl rfl hq

theorem settled_gateRequests {method : Method} {path : Text} {sent : Option Text}
    {p : Prog Api (ApiResult α)} (hq : q.owed = []) (hp : p.Obeys Sweeping Settled q) :
    (gateRequests method path sent p).Obeys Sweeping Settled q := by
  have hstamped : ∀ {p : Prog Api (ApiResult α)}, p.Obeys Sweeping Settled q →
      (stamped p).Obeys Sweeping Settled q := fun hp =>
    settled_bind hp fun _ hq' => obeys_plain rfl fun _ => hq'
  unfold gateRequests
  split
  · exact hstamped hp
  refine settled_holding (hstamped ?_)
  unfold checkInstance
  split
  · refine obeys_plain rfl fun current => ?_
    simp only []
    split
    · exact hq
    · exact hp
  · exact hp

theorem settled_program (r : Request) : r.program.Obeys Sweeping Settled {} := by
  cases r with
  | http r sent => exact settled_gateRequests rfl (settled_handler r rfl)
  | revocationPass => exact settled_plain (settled_revocationPass _ rfl)
  | recordOpen | recordEnd => exact settled_of_within (Request.within_program _) rfl rfl rfl
  | report | tool => exact settled_of_within (Request.within_program _) rfl rfl rfl

end Requests

end WebAccess
