/-
The staging pool of all sessions (`Staging` of `scan/clip.rs`). Every session's clipboard task takes
its room from one counter and gives it back when the offer it was taken for is dropped; the scan jobs
run apart from the tasks and hold their bytes until the scanner is done with them. A run interleaves
the rounds of any number of sessions with sessions starting and ending and scans ending. The counter
is at any time what the offers have reserved; an offer reserves what its file list declares unless
that is 2^64 bytes or more; and what is in memory stays within the maximum only where the copies the
scan jobs hold are counted beside it.
-/
import WebAccess.Scan.Assembly
import WebAccess.Scan.StoreForward
import Mathlib.Algebra.Order.BigOperators.Group.List

namespace WebAccess.Scan

open Codec Wire Transition

/-! ## Sizes -/

def declared (files : List FileDescriptor) : Nat := (files.map FileDescriptor.size).sum

def bytesIn (data : List Bytes) : Nat := (data.map List.length).sum

def jobBytes (jobs : List Job) : Nat := bytesIn (jobs.map Job.bytes)

/-- What a direction has reserved of the pool. -/
def Phase.share (p : Phase) : Nat := p.reservation.getD 0

def Phase.contentBytes : Phase → Nat
  | .fetching { step := .contents c, .. } => bytesIn c.data
  | .fetching { step := .scanning c, .. } => bytesIn c.data
  | .offered o => bytesIn o.data
  | _ => 0

def Session.share (s : Session) : Nat := (s.clip.direction .upload).phase.share +
    (s.clip.direction .download).phase.share

def Session.contentBytes (s : Session) : Nat :=
  (s.clip.direction .upload).phase.contentBytes + (s.clip.direction .download).phase.contentBytes

theorem Session.share_eq (s : Session) (d : Dir) :
    s.share = (s.clip.direction d).phase.share + (s.clip.direction d.other).phase.share := by
  cases d
  · rfl
  · exact Nat.add_comm _ _

/-! ## All sessions -/

/-- The pool, the sessions that are open, and the scans that have not ended: each holds its file. -/
structure Pool where
  staging : Staging
  sessions : List Session := []
  scans : List Job := []

/-- What happens: a session starts, its task is woken, it ends; the scanner is done with a file. A job
whose time is up reports at once and holds its file until then. -/
inductive Occurrence
  | opens
  | round (session : Nat) (label : Label)
  | closes (session : Nat)
  | scanEnds (job : Job)

/-- A task's own events, not those that stand for the other sessions. -/
def Event.ofTask : Event → Bool
  | .staged _ => false
  | _ => true

/-- A session's task sees the counter as the others left it. -/
def Session.seeing (s : Session) (held : Nat) : Session :=
  ⟨{ s.clip.taken with staging := { s.clip.staging with held } }, s.running⟩

namespace Pool

/-- A session's task ends, with whatever it had reserved; its scans go on. -/
def ended (P : Pool) (i : Nat) (s : Session) : Pool :=
  { P with
    staging := (P.staging.release (s.clip.direction .upload).phase.reservation).release
      (s.clip.direction .download).phase.reservation
    sessions := P.sessions.eraseIdx i }

/-- A session's task has handled an event. -/
def moved (P : Pool) (i : Nat) (s' : Session) : Pool where
  staging := { P.staging with held := s'.clip.staging.held }
  sessions := P.sessions.set i s'
  scans := P.scans ++ s'.clip.jobs

/-- One step. A round reserves at most once, and its releases only make room, so that it is one step
of the counter. A round that fails ends the session. -/
def step (P : Pool) : Occurrence → Option Pool
  | .opens => some { P with sessions := P.sessions ++ [Session.start P.staging] }
  | .round i l => P.sessions[i]?.bind fun s =>
    if s.possible l.event && l.event.ofTask then
      match (s.seeing P.staging.held).step l with
      | some s' => some (P.moved i s')
      | none => some (P.ended i s)
    else none
  | .closes i => P.sessions[i]?.map (P.ended i)
  | .scanEnds job => if job ∈ P.scans then some { P with scans := P.scans.erase job } else none

def scanBytes (P : Pool) : Nat := jobBytes P.scans

/-- All contents of files in memory: fetched, offered and being scanned. -/
def memory (P : Pool) : Nat := (P.sessions.map Session.contentBytes).sum + P.scanBytes

end Pool

/-- The runs of all sessions, from a pool of which nothing is reserved. -/
abbrev PoolRun (max : Nat) : List (Entry Pool Occurrence) → Pool → Prop :=
  Run (fun P o P' => P.step o = some P') { staging := ⟨0, max⟩ }

/-! ## Reserving -/

variable {s : Staging} {P : Pool} {limit : Option Nat} {c : Clip} {env : Env} {d : Dir}

theorem Staging.reserve_eq_some {s' : Staging} {bytes : Nat} :
    s.reserve bytes = some s' ↔
      s.held + bytes < 2 ^ 64 ∧ s.held + bytes ≤ s.max ∧ s' = { s with held := s.held + bytes } := by
  unfold reserve
  split
  · rename_i h
    rw [Option.some_inj, eq_comm]
    exact ⟨fun hs => ⟨h.1, h.2, hs⟩, fun hs => hs.2.2⟩
  · rename_i h
    simp only [reduceCtorEq, false_iff]
    exact fun h' => h ⟨h'.1, h'.2.1⟩

theorem Staging.release_eq {r : Option Nat} (hle : r.getD 0 ≤ s.held) (hlt : s.held < 2 ^ 64) :
    s.release r = { s with held := s.held - r.getD 0 } := by
  cases r with
  | none => rfl
  | some bytes =>
    have hle : bytes ≤ s.held := hle
    have hmod : (s.held + 2 ^ 64 - bytes) % 2 ^ 64 = s.held - bytes := by omega
    simp only [release, hmod, Option.getD_some]

/-- An offer has reserved what its file list declares. -/
structure Phase.Reserves (p : Phase) : Prop where
  waiting : ∀ f, p.Waiting f → f.reservation = none
  fetches : ∀ f c, p.Fetches f c → f.reservation = some (declared c.files)
  scans : ∀ f c, p.Scans f c → f.reservation = some (declared c.files)
  offered : ∀ o, p = .offered o → o.reservation = some (bytesIn o.data)

theorem Phase.Reserves.of_not_fetching {p : Phase} (h : ∀ f, p ≠ .fetching f)
    (ho : ∀ o, p = .offered o → o.reservation = some (bytesIn o.data)) : p.Reserves :=
  ⟨fun f hf => absurd hf.1 (h f), fun f _ hf => absurd hf.1 (h f), fun f _ hf => absurd hf.1 (h f), ho⟩

theorem Phase.Reserves.idle : Phase.Reserves .idle := .of_not_fetching nofun nofun

theorem Phase.Reserves.fetching {f : Fetch} (h : match f.step with
    | .descriptor => f.reservation = none
    | .contents c => f.reservation = some (declared c.files)
    | .scanning c => f.reservation = some (declared c.files)) : Phase.Reserves (.fetching f) := by
  refine ⟨?_, ?_, ?_, nofun⟩
  · rintro f' ⟨⟨⟩, hs⟩
    simpa only [hs] using h
  · rintro f' c ⟨⟨⟩, hs⟩
    simpa only [hs] using h
  · rintro f' c ⟨⟨⟩, hs⟩
    simpa only [hs] using h

section Full

variable {files : List FileDescriptor} {data : List Bytes}

theorem bytesIn_le_declared (hlength : data.length = files.length)
    (hfits : ∀ (i : Nat) (file : FileDescriptor) (b : Bytes), files[i]? = some file → data[i]? = some b →
      b.length ≤ file.size) : bytesIn data ≤ declared files := by
  induction files generalizing data with
  | nil =>
    rw [List.length_eq_zero_iff.1 hlength]
    exact le_rfl
  | cons file files ih =>
    obtain ⟨b, data, rfl⟩ := List.exists_cons_of_length_eq_add_one hlength
    have hfirst := hfits 0 file b rfl rfl
    have hrest := ih (by simpa using hlength) fun i file' b' hfile hb => hfits (i + 1) file' b' hfile hb
    simp only [bytesIn, declared, List.map_cons, List.sum_cons] at hrest ⊢
    omega

theorem bytesIn_of_full (hlength : data.length = files.length) (hfull : ∀ i, Full files data i) :
    bytesIn data = declared files := by
  unfold bytesIn declared
  congr 1
  refine List.ext_getElem? fun i => ?_
  rw [List.getElem?_map, List.getElem?_map]
  rcases lt_or_ge i files.length with hi | hi
  · have hi' : i < data.length := hlength ▸ hi
    have hsize := hfull i _ _ (List.getElem?_eq_getElem hi) (List.getElem?_eq_getElem hi')
    rw [List.getElem?_eq_getElem hi, List.getElem?_eq_getElem hi', Option.map_some, Option.map_some, hsize]
  · rw [List.getElem?_eq_none hi, List.getElem?_eq_none (hlength ▸ hi)]
    rfl

end Full

theorem Phase.Reserves.covers {p : Phase} {F : FetchLog} (h : p.Reserves) (ha : Accounted F p) :
    p.contentBytes ≤ p.share := by
  cases p with
  | idle => exact Nat.zero_le _
  | offered o =>
    rw [Phase.share, Phase.reservation, h.offered o rfl]
    exact le_rfl
  | fetching f =>
    obtain ⟨generation, list, fileList, step, deadline, reservation⟩ := f
    cases step with
    | descriptor => exact Nat.zero_le _
    | contents c =>
      have hf := (ha.contents _ c ⟨rfl, rfl⟩).assembled
      rw [Phase.share, Phase.reservation, h.fetches _ c ⟨rfl, rfl⟩]
      exact bytesIn_le_declared hf.length hf.fits
    | scanning c =>
      obtain ⟨hc, hfull⟩ := ha.scans _ c ⟨rfl, rfl⟩
      rw [Phase.share, Phase.reservation, h.scans _ c ⟨rfl, rfl⟩]
      exact (bytesIn_of_full hc.length hfull).le

/-! ## One round -/

section Moves

variable {env : Env} {d : Dir} {v v' : View} {hd : Heard}

variable {f : Fetch} {c : Contents} {c' : Clip}

theorem Next.reserves (h : Next env d f c v v') (hres : f.reservation = some (declared c.files)) :
    v'.phase.Reserves := by
  cases h with
  | ask | scan => exact .fetching hres

/-- A move keeps the reservation of an offer what its list declares, if a list that is accepted declares
less than 2^64 bytes. -/
theorem Move.reserves {F : FetchLog} (h : Move env d v hd v') (hres : v.phase.Reserves) (ha : Accounted F v.phase)
    (hsmall : ∀ resp w f files staging, hd = .dataAnswer resp w → v.phase.Waiting f →
      v.dataOwed.head? = some .proxy → Clip.listing resp env.maxFileBytes v.staging = .accepted files staging →
      declared files < 2 ^ 64) : v'.phase.Reserves := by
  cases h with
  | plainList | unhealthyList | refuseFiles | refuseContents | refuseVerdict => exact .idle
  | swallowList | passList | answerData | forwardData | passData | dropData | answerContents | ignoreContents
    | ignoreVerdict => exact hres
  | offer => exact .fetching rfl
  | @acceptFiles resp w rest f files staging _ owed waiting accepted next =>
    refine next.reserves (congrArg some (Nat.mod_eq_of_lt ?_))
    exact hsmall resp w f files staging rfl waiting (by rw [owed]; rfl) accepted
  | acceptContents fetches takes hs' next =>
    have hreserved := hres.fetches _ _ fetches
    subst hs'
    exact next.reserves hreserved
  | storeVerdict scans more =>
    have hreserved := hres.scans _ _ scans
    exact .fetching hreserved
  | @passVerdict index vd f s scans all clean =>
    obtain ⟨hs, hfull⟩ := ha.scans _ _ scans
    refine .of_not_fetching nofun ?_
    rintro o ⟨⟩
    rw [bytesIn_of_full hs.length hfull]
    exact hres.scans _ _ scans

theorem Next.share (h : Next env d f c v v') : v'.staging = v.staging ∧ v'.phase.reservation = f.reservation := by
  cases h with
  | ask | scan => exact ⟨rfl, rfl⟩

/-- The counter follows the reservation, and stays within the maximum. -/
structure Follows (v v' : View) : Prop where
  max : v'.staging.max = v.staging.max
  held : v'.staging.held + v.phase.share = v.staging.held + v'.phase.share
  within : v.staging.held ≤ v.staging.max → v'.staging.held ≤ v.staging.max

theorem Follows.of_same (hstaging : v'.staging = v.staging) (hphase : v'.phase.reservation = v.phase.reservation) :
    Follows v v' := by
  refine ⟨by rw [hstaging], by simp only [Phase.share, hstaging, hphase], fun h => ?_⟩
  rw [hstaging]
  exact h

theorem Follows.of_release (hle : v.phase.share ≤ v.staging.held) (hlt : v.staging.held < 2 ^ 64)
    (hstaging : v'.staging = v.staging.release v.phase.reservation) (hphase : v'.phase.reservation = none) :
    Follows v v' := by
  rw [Staging.release_eq hle hlt] at hstaging
  have hshare : v'.phase.share = 0 := by rw [Phase.share, hphase]; rfl
  refine ⟨by rw [hstaging], ?_, fun h => ?_⟩
  · rw [hstaging, hshare]
    exact Nat.sub_add_cancel hle
  · rw [hstaging]
    exact (Nat.sub_le _ _).trans h

theorem Move.follows (h : Move env d v hd v') (hres : v.phase.Reserves) (hle : v.phase.share ≤ v.staging.held)
    (hlt : v.staging.held < 2 ^ 64) : Follows v v' := by
  cases h with
  | plainList | unhealthyList | offer | refuseFiles | refuseContents | refuseVerdict =>
    exact .of_release hle hlt rfl rfl
  | swallowList | passList | answerData | forwardData | passData | dropData | answerContents | ignoreContents
    | ignoreVerdict => exact .of_same rfl rfl
  | @acceptFiles resp w rest f files staging _ owed waiting accepted next =>
    obtain ⟨hstaging, hphase⟩ := next.share
    obtain ⟨-, hroom, rfl⟩ := Staging.reserve_eq_some.1 (Clip.listing_accepted accepted).reserved
    have hnone : v.phase.share = 0 := by
      rw [waiting.1, Phase.share, Phase.reservation, hres.waiting f waiting]
      rfl
    refine ⟨by rw [hstaging], ?_, fun _ => ?_⟩
    · rw [hstaging, hnone, Phase.share, hphase]
      rfl
    · rw [hstaging]
      exact hroom
  | acceptContents fetches takes hs' next =>
    obtain ⟨hstaging, hphase⟩ := next.share
    exact .of_same hstaging (by rw [hphase, fetches.1]; rfl)
  | storeVerdict scans | passVerdict scans => exact .of_same rfl (by rw [scans.1]; rfl)

theorem Clip.Late.follows {c : Clip} (h : Clip.Late env d c c') (hle : (c.direction d).phase.share ≤ c.staging.held)
    (hlt : c.staging.held < 2 ^ 64) : Follows (c.view d) (c'.view d) := by
  cases h with
  | inTime => exact .of_same rfl rfl
  | refused phase late view frame =>
    rw [view]
    exact .of_release hle hlt rfl rfl

theorem Clip.Late.share_le {c : Clip} (h : Clip.Late env d c c') :
    (c'.direction d).phase.share ≤ (c.direction d).phase.share := by
  rcases h.direction with hsame | ⟨-, hafter⟩
  · rw [hsame]
  · rw [hafter]
    exact Nat.zero_le _

end Moves

section Rounds

variable {l : Label} {s s' : Session}

/-- After a round of a session the counter has changed by what the session has reserved or given back. -/
theorem Round.follows (h : Round l s s') (htask : l.event.ofTask = true)
    (hres : ∀ d, (s.clip.direction d).phase.Reserves) (hle : s.share ≤ s.clip.staging.held)
    (hlt : s.clip.staging.held < 2 ^ 64) :
    s'.clip.staging.max = s.clip.staging.max ∧
      s'.clip.staging.held + s.share = s.clip.staging.held + s'.share ∧
      (s.clip.staging.held ≤ s.clip.staging.max → s'.clip.staging.held ≤ s.clip.staging.max) := by
  have htaken := s.clip.direction_taken
  cases h with
  | @heard d hd heard move frame =>
    have hphase : (s.clip.taken.view d).phase = (s.clip.direction d).phase := by rw [Clip.view, htaken]
    have hshare := s.share_eq d
    obtain ⟨hmax, hheld, hwithin⟩ := move.follows (by rw [hphase]; exact hres d)
      (by rw [hphase]; exact (Nat.le_add_right _ _).trans (hshare ▸ hle)) hlt
    refine ⟨hmax, ?_, hwithin⟩
    have hheld' : s'.clip.staging.held + (s.clip.direction d).phase.share =
        s.clip.staging.held + (s'.clip.direction d).phase.share := hphase ▸ hheld
    rw [hshare, s'.share_eq d, frame.other]
    omega
  | aside event heard aside =>
    have hsame : s'.share = s.share := by simp only [Session.share, aside.direction, htaken]
    rw [aside.staging, hsame]
    exact ⟨rfl, rfl, id⟩
  | @deadline m event up down =>
    have hup : m.direction .download = s.clip.direction .download := up.other.trans (htaken _)
    have hdown : s'.clip.direction .upload = m.direction .upload := down.other
    have hshares : s.share = (s.clip.direction .upload).phase.share + (s.clip.direction .download).phase.share := rfl
    obtain ⟨hmax₁, hheld₁, hwithin₁⟩ := up.follows (by rw [htaken]; exact (Nat.le_add_right _ _).trans hle) hlt
    have hheld₁' : m.staging.held + (s.clip.direction .upload).phase.share =
        s.clip.staging.held + (m.direction .upload).phase.share := by rw [← htaken]; exact hheld₁
    have hmid := up.share_le
    rw [htaken] at hmid
    obtain ⟨hmax₂, hheld₂, hwithin₂⟩ := down.follows (by rw [hup]; omega) (by omega)
    have hheld₂' : s'.clip.staging.held + (s.clip.direction .download).phase.share =
        m.staging.held + (s'.clip.direction .download).phase.share := by rw [← hup]; exact hheld₂
    refine ⟨hmax₂.trans hmax₁, ?_, fun h => ?_⟩
    · rw [hshares, Session.share, hdown]
      omega
    · exact (hwithin₂ ((hwithin₁ h).trans hmax₁.ge)).trans hmax₁.le
  | staged event clip =>
    rw [event] at htask
    cases htask

theorem Round.reserves (h : Round l s s') {d : Dir} {F : FetchLog} (hres : (s.clip.direction d).phase.Reserves)
    (ha : Accounted F (s.clip.direction d).phase)
    (hsmall : ∀ resp w f files staging, l.event.heard = some (d, .dataAnswer resp w) →
      (s.clip.direction d).phase.Waiting f → (s.clip.direction d).dataOwed.head? = some .proxy →
      Clip.listing resp l.env.maxFileBytes s.clip.staging = .accepted files staging → declared files < 2 ^ 64) :
    (s'.clip.direction d).phase.Reserves := by
  have hview : s.clip.taken.view d = { s.clip.view d with out := [], reports := [], jobs := [] } := by cases d <;> rfl
  rcases h.seen d with ⟨heard, move⟩ | ⟨event, phase, after⟩ | ⟨quiet, same⟩
  · rw [hview] at move
    exact move.reserves hres ha fun resp w f files staging hhd => hsmall resp w f files staging (hhd ▸ heard)
  · rw [after]
    exact .idle
  · rw [same]
    exact hres

end Rounds

/-! ## Whole runs -/

inductive Pool.Turn (P : Pool) : Occurrence → Pool → Prop
  | opens : Turn P .opens { P with sessions := P.sessions ++ [Session.start P.staging] }
  | moved {i : Nat} {l : Label} {s s' : Session} (session : P.sessions[i]? = some s)
      (task : l.event.ofTask = true) (step : (s.seeing P.staging.held).step l = some s') :
      Turn P (.round i l) (P.moved i s')
  | failed {i : Nat} {l : Label} {s : Session} (session : P.sessions[i]? = some s) : Turn P (.round i l) (P.ended i s)
  | closes {i : Nat} {s : Session} (session : P.sessions[i]? = some s) : Turn P (.closes i) (P.ended i s)
  | scanEnds {job : Job} (running : job ∈ P.scans) : Turn P (.scanEnds job) { P with scans := P.scans.erase job }

theorem Pool.turn {P' : Pool} {o : Occurrence} (h : P.step o = some P') : P.Turn o P' := by
  cases o with
  | opens =>
    cases h
    exact .opens
  | round i l =>
    obtain ⟨s, hs, h⟩ := Option.bind_eq_some_iff.1 h
    split at h
    · rename_i hpossible
      split at h
      · rename_i s' hstep
        cases h
        exact .moved hs (Bool.and_eq_true_iff.1 hpossible).2 hstep
      · cases h
        exact .failed hs
    · cases h
  | closes i =>
    obtain ⟨s, hs, rfl⟩ := Option.map_eq_some_iff.1 h
    exact .closes hs
  | scanEnds job =>
    obtain ⟨hjob, h⟩ := Option.ite_none_right_eq_some.1 h
    cases h
    exact .scanEnds hjob

/-- A session that shares a pool of this maximum: it has run, and its offers have reserved what their lists declare. -/
structure Session.Shares (max : Nat) (s : Session) : Prop where
  run : ∃ staging tr, SessionRun staging tr s
  max : s.clip.staging.max = max
  reserves : ∀ d, (s.clip.direction d).phase.Reserves

/-- The counter is what the offers have reserved. -/
structure Pool.Balanced (P : Pool) : Prop where
  held : P.staging.held = (P.sessions.map Session.share).sum
  within : P.staging.held ≤ P.staging.max
  word : P.staging.max < 2 ^ 64
  shares : ∀ s ∈ P.sessions, s.Shares P.staging.max

theorem sum_map_eraseIdx {α : Type} (f : α → Nat) {l : List α} {i : Nat} {a : α} (h : l[i]? = some a) :
    ((l.eraseIdx i).map f).sum + f a = (l.map f).sum := by
  obtain ⟨hi, rfl⟩ := List.getElem?_eq_some_iff.1 h
  rw [← List.eraseIdx_map, Nat.add_comm, ← List.getElem_map f]
  exact List.CommMonoid.add_sum_eraseIdx (by simpa)

theorem sum_map_set {α : Type} (f : α → Nat) {l : List α} {i : Nat} {a : α} (b : α) (h : l[i]? = some a) :
    ((l.set i b).map f).sum + f a = (l.map f).sum + f b := by
  have hnew := sum_map_eraseIdx f (List.getElem?_set_self (List.getElem?_eq_some_iff.1 h).1 (a := b))
  rw [List.eraseIdx_set_eq] at hnew
  have hold := sum_map_eraseIdx f h
  omega

theorem Session.step_staged (s : Session) (env : Env) (held : Nat) :
    s.step ⟨env, .staged held⟩ = some (s.seeing held) := by
  simp [Session.step, Session.possible, Session.handle, Session.left, Session.seeing, Clip.taken]

@[simp] theorem Session.direction_seeing (s : Session) (held : Nat) (d : Dir) :
    (s.seeing held).clip.direction d = s.clip.direction d := by cases d <;> rfl

/-- A file list that passes every other check declares 2^64 bytes or more, and what is left of the sum
in 64 bits finds room. -/
structure Wraps (resp : FormatDataResponse) (limit : Option Nat) (staging : Staging) (files : List FileDescriptor) :
    Prop extends Clip.Checked resp limit files where
  large : 2 ^ 64 ≤ declared files
  room : staging.held + declared files % 2 ^ 64 ≤ staging.max

/-- No file list that the proxy waits for in this step wraps. -/
def NoneWraps (e : Entry Pool Occurrence) : Prop :=
  ∀ i l s d resp w f files, e.label = .round i l → e.pre.sessions[i]? = some s →
    l.event.heard = some (d, .dataAnswer resp w) → (s.clip.direction d).phase.Waiting f →
    (s.clip.direction d).dataOwed.head? = some .proxy → ¬ Wraps resp l.env.maxFileBytes e.pre.staging files

variable {resp : FormatDataResponse} {staging : Staging} {files : List FileDescriptor}
  {tr : List (Entry Pool Occurrence)}

theorem Clip.Accepted.declared_lt {staging' : Staging} (h : Clip.Accepted resp limit staging files staging')
    (hwraps : ¬ Wraps resp limit staging files) : declared files < 2 ^ 64 := by
  by_contra hlarge
  exact hwraps ⟨h.toChecked, Nat.le_of_not_lt hlarge, (Staging.reserve_eq_some.1 h.reserved).2.1⟩

namespace Pool

variable {P P' : Pool} {o : Occurrence} {i : Nat} {s : Session}

theorem Balanced.share_le (h : P.Balanced) (hs : P.sessions[i]? = some s) : s.share ≤ P.staging.held := by
  rw [h.held, ← sum_map_eraseIdx Session.share hs]
  exact Nat.le_add_left _ _

theorem Balanced.staging_seeing (h : P.Balanced) (hs : s ∈ P.sessions) :
    (s.seeing P.staging.held).clip.staging = P.staging := by
  show (⟨P.staging.held, s.clip.staging.max⟩ : Staging) = P.staging
  rw [(h.shares s hs).max]

theorem Balanced.ended_eq (h : P.Balanced) (hs : P.sessions[i]? = some s) :
    P.ended i s =
      { P with staging := { P.staging with held := P.staging.held - s.share }, sessions := P.sessions.eraseIdx i } := by
  have hle := h.share_le hs
  have hlt := Nat.lt_of_le_of_lt h.within h.word
  have hshare : s.share = (s.clip.direction .upload).phase.share + (s.clip.direction .download).phase.share := rfl
  have hup : (s.clip.direction .upload).phase.share ≤ P.staging.held := by omega
  rw [ended, Staging.release_eq hup hlt, Staging.release_eq]
  · simp only [Pool.mk.injEq, Staging.mk.injEq, and_true]
    rw [Nat.sub_sub]
    rfl
  · show (s.clip.direction .download).phase.share ≤ P.staging.held - (s.clip.direction .upload).phase.share
    omega
  · show P.staging.held - (s.clip.direction .upload).phase.share < 2 ^ 64
    omega

theorem Balanced.ended (h : P.Balanced) (hs : P.sessions[i]? = some s) : (P.ended i s).Balanced := by
  rw [h.ended_eq hs]
  have hsum := sum_map_eraseIdx Session.share hs
  refine ⟨?_, ?_, h.word, fun x hx => h.shares x (List.mem_of_mem_eraseIdx hx)⟩
  · show P.staging.held - s.share = ((P.sessions.eraseIdx i).map Session.share).sum
    rw [h.held]
    omega
  · exact (Nat.sub_le _ _).trans h.within

theorem Balanced.moved {l : Label} {s' : Session} (h : P.Balanced) (hs : P.sessions[i]? = some s)
    (htask : l.event.ofTask = true) (hstep : (s.seeing P.staging.held).step l = some s')
    (hwraps : NoneWraps ⟨P, .round i l, P.moved i s'⟩) : (P.moved i s').Balanced := by
  have hmem := List.mem_of_getElem? hs
  obtain ⟨⟨staging, tr, hrun⟩, hmax, hreserves⟩ := h.shares s hmem
  have hseen := hrun.snoc (s.step_staged l.env P.staging.held)
  have hround := Session.round hstep
  have hmax : (s.seeing P.staging.held).clip.staging.max = P.staging.max := hmax
  have hle := h.share_le hs
  obtain ⟨hmax', hheld, hwithin⟩ := hround.follows htask (by simpa using hreserves) hle
    (Nat.lt_of_le_of_lt h.within h.word)
  have hheld' : s'.clip.staging.held + s.share = P.staging.held + s'.share := hheld
  have hsum := sum_map_set Session.share s' hs
  refine ⟨?_, ?_, h.word, fun x hx => ?_⟩
  · show s'.clip.staging.held = ((P.sessions.set i s').map Session.share).sum
    rw [h.held] at hheld'
    omega
  · exact (hwithin (hmax ▸ h.within)).trans hmax.le
  · rcases List.mem_or_eq_of_mem_set hx with hx | rfl
    · exact h.shares x hx
    · refine ⟨⟨staging, _, hseen.snoc hstep⟩, hmax'.trans hmax, fun d => ?_⟩
      refine hround.reserves (by simpa using hreserves d) (accounted hseen d) ?_
      intro resp w f files staging' hheard hwaiting howed haccepted
      rw [Session.direction_seeing] at hwaiting howed
      rw [h.staging_seeing hmem] at haccepted
      exact (Clip.listing_accepted haccepted).declared_lt (hwraps i l s d resp w f files rfl hs hheard hwaiting howed)

theorem Balanced.step (h : P.Balanced) (hturn : P.Turn o P') (hwraps : NoneWraps ⟨P, o, P'⟩) : P'.Balanced := by
  cases hturn with
  | opens =>
    have hstart : ∀ d, ((Session.start P.staging).clip.direction d).phase = .idle := by intro d; cases d <;> rfl
    refine ⟨?_, h.within, h.word, fun x hx => ?_⟩
    · rw [List.map_append, List.sum_append, ← h.held]
      rfl
    · rcases mem_snoc.1 hx with hx | rfl
      · exact h.shares x hx
      · exact ⟨⟨P.staging, [], .nil⟩, rfl, fun d => hstart d ▸ .idle⟩
  | moved session task step => exact h.moved session task step hwraps
  | failed session | closes session => exact h.ended session
  | scanEnds running => exact ⟨h.held, h.within, h.word, h.shares⟩

theorem Balanced.start {max : Nat} (h : max < 2 ^ 64) : Pool.Balanced { staging := ⟨0, max⟩ } :=
  ⟨rfl, Nat.zero_le _, h, by simp⟩

end Pool

theorem balanced {max : Nat} (hmax : max < 2 ^ 64) (hrun : PoolRun max tr P) (hwraps : ∀ e ∈ tr, NoneWraps e) :
    P.Balanced := by
  refine (hrun.restrict hwraps).invariant (.start hmax) ?_
  intro P o P' hP hstep
  exact hP.step (Pool.turn hstep.1) hstep.2

/-! ## Room for an offer -/

/-- What becomes of a file list the proxy waits for. It is taken on, so that its buffers are allocated and
its first range is asked for, only if what it declares is no more than the pool has left, and then that is
what it reserves; otherwise it is refused, and nothing panics. -/
structure FitsPool (env : Env) (d : Dir) (resp : FormatDataResponse) (c : Clip) : Prop where
  fits : ∀ files staging, Clip.listing resp env.maxFileBytes c.staging = .accepted files staging →
    resp.toFileList = some files ∧ c.staging.held + declared files ≤ c.staging.max ∧
      staging = { c.staging with held := c.staging.held + declared files }
  reserved : ∀ files staging c', Clip.listing resp env.maxFileBytes c.staging = .accepted files staging →
    c.descriptor env d resp = .ok c' →
    c'.staging = staging ∧ (c'.direction d).phase.reservation = some (declared files)
  refused : ∀ files reason, Clip.listing resp env.maxFileBytes c.staging = .refused files reason →
    (∀ c', c.descriptor env d resp = .ok c' → ∃ us, c'.view d = (c.view d).refused d files reason us) ∧
    ∀ e, c.descriptor env d resp = .error e → ∃ r, e = .route r

theorem Wraps.accepted (h : Wraps resp limit staging files) (hword : staging.max < 2 ^ 64) :
    ∃ staging', Clip.listing resp limit staging = .accepted files staging' := by
  refine ⟨{ staging with held := staging.held + declared files % 2 ^ 64 }, Clip.Accepted.listing ⟨h.toChecked, ?_⟩⟩
  exact Staging.reserve_eq_some.2 ⟨Nat.lt_of_le_of_lt h.room hword, h.room, rfl⟩

theorem Clip.descriptor_waiting {c' : Clip} {f : Fetch} (hwaiting : (c.direction d).phase.Waiting f)
    (haccepted : listing resp env.maxFileBytes c.staging = .accepted files staging)
    (h : c.descriptor env d resp = .ok c') :
    c'.staging = staging ∧ (c'.direction d).phase.reservation = some (declared files % 2 ^ 64) := by
  unfold descriptor at h
  rw [hwaiting.1] at h
  simp only [hwaiting.2, haccepted] at h
  split at h
  · cases h
  · obtain ⟨hnext, -⟩ := fetchNext_ok (by rw [direction_putPhase]; exact ⟨rfl, rfl⟩) h
    obtain ⟨hstaging, hphase⟩ := hnext.share
    refine ⟨hstaging.trans ?_, hphase⟩
    cases d <;> rfl

/-- An offer is fetched only if it fits, and reserves what it declares until it is dropped. Of a file list
the first holds exactly if the list does not wrap, whatever the pool holds; and the second in every run
in which none does. -/
theorem reservation_exact (max : Nat) (word : max < 2 ^ 64) :
    (∀ (env : Env) (d : Dir) (resp : FormatDataResponse) (c : Clip) (f : Fetch), c.staging.max = max →
      (c.direction d).phase.Waiting f →
      (FitsPool env d resp c ↔ ∀ files, ¬ Wraps resp env.maxFileBytes c.staging files)) ∧
    ∀ (tr : List (Entry Pool Occurrence)) (P : Pool), PoolRun max tr P → (∀ e ∈ tr, NoneWraps e) →
      P.staging.held = (P.sessions.map Session.share).sum ∧
        ∀ s ∈ P.sessions, ∀ d, (s.clip.direction d).phase.Reserves := by
  refine ⟨fun env d resp c f hmax hwaiting => ⟨fun h files hwraps => ?_, fun h => ⟨?_, ?_, ?_⟩⟩, ?_⟩
  · obtain ⟨staging, haccepted⟩ := hwraps.accepted (hmax ▸ word)
    have hroom := (h.fits files staging haccepted).2.1
    have hlarge := hwraps.large
    omega
  · intro files staging haccepted
    have hchecked := Clip.listing_accepted haccepted
    obtain ⟨-, hroom, hstaging⟩ := Staging.reserve_eq_some.1 hchecked.reserved
    have hexact : (files.map FileDescriptor.size).sum % 2 ^ 64 = declared files :=
      Nat.mod_eq_of_lt (hchecked.declared_lt (h files))
    rw [hexact] at hroom hstaging
    exact ⟨hchecked.read, hroom, hstaging⟩
  · intro files staging c' haccepted hok
    obtain ⟨hstaging, hreserved⟩ := Clip.descriptor_waiting hwaiting haccepted hok
    rw [Nat.mod_eq_of_lt ((Clip.listing_accepted haccepted).declared_lt (h files))] at hreserved
    exact ⟨hstaging, hreserved⟩
  · intro files reason hrefused
    have heq : c.descriptor env d resp = c.refuseFiles env d files reason := by
      unfold Clip.descriptor
      rw [hwaiting.1]
      simp only [hwaiting.2, hrefused]
    rw [heq]
    refine ⟨fun c' hok => ?_, fun e he => ?_⟩
    · obtain ⟨us, -, hview, -⟩ := Clip.refuseFiles_ok hok
      exact ⟨us, hview⟩
    · exact Clip.send_route he
  · intro tr P hrun hwraps
    have hbalanced := balanced word hrun hwraps
    exact ⟨hbalanced.held, fun s hs => (hbalanced.shares s hs).reserves⟩

/-- One session and what its task is woken by. -/
def oneSession (events : List Event) : List Occurrence := .opens :: events.map fun event => .round 0 ⟨scriptEnv, event⟩

theorem oneSession_run (max : Nat) (events : List Event) (p : Pool → Bool)
    (h : (exec Pool.step { staging := ⟨0, max⟩ } (oneSession events)).any p = true) :
    ∃ P, PoolRun max (trace Pool.step { staging := ⟨0, max⟩ } (oneSession events)) P ∧ p P = true :=
  run_of_exec _ _ _ p h

/-- Every file list in a step declares less than 2^64 bytes. -/
def Occurrence.small : Occurrence → Bool
  | .round _ l => match l.event.heard with
    | some (_, .dataAnswer resp _) => resp.toFileList.all fun files => decide (declared files < 2 ^ 64)
    | _ => true
  | _ => true

theorem noneWraps_of_small (h : (tr.all fun e => e.label.small) = true) : ∀ e ∈ tr, NoneWraps e := by
  intro e he i l s d resp w f files hlabel _ hheard _ _ hwraps
  have hsmall := List.all_eq_true.1 h e he
  simp only [hlabel, Occurrence.small, hheard, hwraps.read, Option.all_some, decide_eq_true_eq] at hsmall
  exact absurd hwraps.large (Nat.not_le.2 hsmall)

/-- The client's answer to a request for the file list: files of the given sizes. -/
def listSizes (sizes : List Nat) : Event :=
  .pdu .client (sent (.formatDataResponse
    (.newData ((encodeFileList (sizes.map fun size => ⟨none, none, some size, ['a'], none⟩)).getD []))))

/-- A session that waits for a file list. -/
def waitingClip : Clip :=
  { up := ⟨.fetching ⟨1, ⟨[], []⟩, 0xC0A1, .descriptor, 30, none⟩, [.proxy], []⟩, staging := ⟨0, 100⟩ }

/-- A file of three bytes fits, and has three bytes reserved for it. -/
theorem reservation_exact_three :
    FitsPool scriptEnv .upload (.newData ((encodeFileList [⟨none, none, some 3, ['a'], none⟩]).getD [])) waitingClip ∧
    ∃ P, PoolRun 100 (trace Pool.step { staging := ⟨0, 100⟩ } (oneSession [offerFile, listSizes [3]])) P ∧
      P.staging.held = 3 ∧ P.staging.held = (P.sessions.map Session.share).sum := by
  constructor
  · refine ((reservation_exact 100 (by decide)).1 scriptEnv .upload _ waitingClip _ rfl ⟨rfl, rfl⟩).2
      fun files hwraps => ?_
    have hsmall : ((FormatDataResponse.newData ((encodeFileList [⟨none, none, some 3, ['a'], none⟩]).getD
      [])).toFileList.all
        fun files => decide (declared files < 2 ^ 64)) = true := by decide +kernel
    rw [hwraps.read, Option.all_some, decide_eq_true_eq] at hsmall
    exact Nat.not_le.2 hsmall hwraps.large
  · obtain ⟨P, hrun, hheld⟩ := oneSession_run 100 [offerFile, listSizes [3]] (fun P => P.staging.held == 3)
      (by decide +kernel)
    refine ⟨P, hrun, by simpa using hheld, ?_⟩
    exact ((reservation_exact 100 (by decide)).2 _ P hrun (noneWraps_of_small (by decide +kernel))).1

def panics : Except Fail Clip → Bool
  | .error .capacity => true
  | _ => false

/-- Two files of 2^63 bytes are offered to a pool of 100 bytes. Their sum is 0 in 64 bits, for which there is
room, and allocating the first buffer panics. -/
theorem wrapping_list_panics : ∃ P s, PoolRun 100 (trace Pool.step { staging := ⟨0, 100⟩ } (oneSession [offerFile])) P ∧
    P.sessions[0]? = some s ∧ P.staging.max - P.staging.held = 100 ∧
    (s.seeing P.staging.held).handle ⟨scriptEnv, listSizes [2 ^ 63, 2 ^ 63]⟩ = .error .capacity := by
  obtain ⟨P, hrun, hP⟩ := oneSession_run 100 [offerFile]
    (fun P => P.staging.max - P.staging.held == 100 && P.sessions[0]?.any fun s =>
      panics ((s.seeing P.staging.held).handle ⟨scriptEnv, listSizes [2 ^ 63, 2 ^ 63]⟩)) (by decide +kernel)
  obtain ⟨hroom, hany⟩ := Bool.and_eq_true_iff.1 hP
  obtain ⟨s, hs, hpanic⟩ := (Option.any_eq_true ..).1 hany
  refine ⟨P, s, hrun, hs, beq_iff_eq.1 hroom, ?_⟩
  unfold panics at hpanic
  split at hpanic
  · rename_i heq
    exact heq
  · cases hpanic

/-! ## Memory -/

@[simp] theorem bytesIn_append (xs ys : List Bytes) : bytesIn (xs ++ ys) = bytesIn xs + bytesIn ys := by
  simp [bytesIn]

@[simp] theorem jobBytes_append (xs ys : List Job) : jobBytes (xs ++ ys) = jobBytes xs + jobBytes ys := by
  simp [jobBytes]

theorem jobBytes_erase {jobs : List Job} {j : Job} (h : j ∈ jobs) :
    jobBytes jobs = j.bytes.length + jobBytes (jobs.erase j) := by
  have hperm := ((List.perm_cons_erase h).map Job.bytes).map List.length
  rw [jobBytes, bytesIn, hperm.sum_nat]
  rfl

theorem jobBytes_jobsOf {g : Nat} {data : List Bytes} (h : data.length = files.length) :
    jobBytes (Clip.jobsOf d g files data) = bytesIn data := by
  have hbytes : (Clip.jobsOf d g files data).map Job.bytes = data :=
    List.ext_getElem (by simp [Clip.jobsOf, h]) fun i _ _ => by simp [Clip.jobsOf]
  rw [jobBytes, hbytes]

section Moves

variable {env : Env} {d : Dir} {v v' : View} {hd : Heard}

variable {F : FetchLog}

theorem Next.jobBytes_le {f : Fetch} {c : Contents} (h : Next env d f c v v') (ha : Accounted F v'.phase) :
    v'.jobs = v.jobs ∨ bytesIn c.data = declared c.files ∧ jobBytes v'.jobs = jobBytes v.jobs + declared c.files := by
  cases h with
  | ask => exact .inl rfl
  | scan =>
    obtain ⟨hassembled, hfull⟩ := ha.scans _ _ ⟨rfl, rfl⟩
    have hbytes := bytesIn_of_full hassembled.length hfull
    refine .inr ⟨hbytes, ?_⟩
    rw [jobBytes_append, jobBytes_jobsOf hassembled.length, hbytes]

/-- What a move adds to the counter and to the scans has room beside what the scans hold already, if a list
that is taken on has, and the copies of an offer that is complete have. -/
theorem Move.room {scans : Nat} (h : Move env d v hd v') (hjobs : v.jobs = []) (hle : v.phase.share ≤ v.staging.held)
    (hlt : v.staging.held < 2 ^ 64) (ha : Accounted F v'.phase) (hroom : v.staging.held + scans ≤ v.staging.max)
    (hlisted : ∀ resp w f files, hd = .dataAnswer resp w → v.phase.Waiting f → v.dataOwed.head? = some .proxy →
      resp.toFileList = some files → declared files < 2 ^ 64 ∧ (v.staging.held + declared files ≤ v.staging.max →
        v.staging.held + declared files + scans ≤ v.staging.max))
    (hcomplete : ∀ resp f c, hd = .contentsAnswer resp → v.phase.Fetches f c → bytesIn c.data + resp.data.length =
      declared c.files → v.staging.held + declared c.files + scans ≤ v.staging.max) :
    v'.staging.held + (scans + jobBytes v'.jobs) ≤ v.staging.max := by
  have hnone : jobBytes v.jobs = 0 := by rw [hjobs]; rfl
  have hdropped : (v.staging.release v.phase.reservation).held + (scans + jobBytes v.jobs) ≤ v.staging.max := by
    rw [Staging.release_eq hle hlt, hnone]
    show v.staging.held - v.phase.share + (scans + 0) ≤ v.staging.max
    omega
  cases h with
  | plainList | unhealthyList | offer | refuseFiles | refuseContents | refuseVerdict => exact hdropped
  | swallowList | passList | answerData | forwardData | passData | dropData | answerContents | ignoreContents
    | ignoreVerdict | storeVerdict | passVerdict =>
    rw [hnone]
    exact hroom
  | @acceptFiles resp w rest f files staging _ owed waiting accepted next =>
    have hchecked := Clip.listing_accepted accepted
    obtain ⟨hsmall, hfits⟩ := hlisted resp w f files rfl waiting (by rw [owed]; rfl) hchecked.read
    obtain ⟨-, hreserved, hstaging⟩ := Staging.reserve_eq_some.1 hchecked.reserved
    have hexact : (files.map FileDescriptor.size).sum % 2 ^ 64 = declared files := Nat.mod_eq_of_lt hsmall
    rw [hexact] at hreserved hstaging
    have hnew : jobBytes v'.jobs = 0 := by
      rcases next.jobBytes_le ha with hsame | ⟨hbytes, hnew⟩
      · rw [hsame]
        exact hnone
      · have hempty : bytesIn (files.map fun _ => []) = 0 := by simp [bytesIn]
        rw [hnew, ← hbytes, hempty]
        exact hnone
    rw [next.share.1, hnew, hstaging]
    exact hfits hreserved
  | @acceptContents resp f s s' file held _ fetches takes hs' next =>
    rw [next.share.1]
    rcases next.jobBytes_le ha with hsame | ⟨hbytes, hnew⟩
    · rw [hsame, hnone]
      exact hroom
    · have hsum := sum_map_set List.length (held ++ resp.data) takes.hheld
      have hcomplete := hcomplete resp f s rfl fetches (by
        rw [hs'] at hbytes
        rw [← hbytes]
        simp only [bytesIn, List.length_append] at hsum ⊢
        omega)
      rw [hnew, hnone, hs']
      simp only [Nat.zero_add]
      omega

end Moves

/-- The copies the scans hold are counted: a list that fits the pool fits beside them, and so do the copies
of an offer whose last bytes come in. -/
structure CopiesFit (e : Entry Pool Occurrence) : Prop where
  listed : ∀ i l s d resp w f files, e.label = .round i l → e.pre.sessions[i]? = some s →
    l.event.heard = some (d, .dataAnswer resp w) → (s.clip.direction d).phase.Waiting f →
    (s.clip.direction d).dataOwed.head? = some .proxy → resp.toFileList = some files →
    declared files < 2 ^ 64 ∧ (e.pre.staging.held + declared files ≤ e.pre.staging.max →
      e.pre.staging.held + declared files + e.pre.scanBytes ≤ e.pre.staging.max)
  complete : ∀ i l s d resp f c, e.label = .round i l → e.pre.sessions[i]? = some s →
    l.event.heard = some (d, .contentsAnswer resp) → (s.clip.direction d).phase.Fetches f c →
    bytesIn c.data + resp.data.length = declared c.files →
    e.pre.staging.held + declared c.files + e.pre.scanBytes ≤ e.pre.staging.max

theorem CopiesFit.noneWraps {e : Entry Pool Occurrence} (h : CopiesFit e) : NoneWraps e := by
  intro i l s d resp w f files hlabel hs hheard hwaiting howed hwraps
  exact Nat.not_le.2 (h.listed i l s d resp w f files hlabel hs hheard hwaiting howed hwraps.read).1 hwraps.large

namespace Pool

variable {P P' : Pool} {o : Occurrence} {i : Nat} {s : Session}

/-- What is reserved and what the scans hold is within the maximum. -/
def Roomy (P : Pool) : Prop := P.staging.held + P.scanBytes ≤ P.staging.max

theorem Roomy.moved {l : Label} {s' : Session} (h : P.Roomy) (hbalanced : P.Balanced) (hs : P.sessions[i]? = some s)
    (htask : l.event.ofTask = true) (hstep : (s.seeing P.staging.held).step l = some s')
    (hcopies : CopiesFit ⟨P, .round i l, P.moved i s'⟩) : (P.moved i s').Roomy := by
  have hmem := List.mem_of_getElem? hs
  obtain ⟨⟨staging, tr, hrun⟩, -, hreserves⟩ := hbalanced.shares s hmem
  have hrun' := (hrun.snoc (s.step_staged l.env P.staging.held)).snoc hstep
  have hlt := Nat.lt_of_le_of_lt hbalanced.within hbalanced.word
  have hle := hbalanced.share_le hs
  have hround := Session.round hstep
  obtain ⟨-, hheld, -⟩ := hround.follows htask (by simpa using hreserves) hle hlt
  have hheld' : s'.clip.staging.held + s.share = P.staging.held + s'.share := hheld
  have hview : ∀ d, (s.seeing P.staging.held).clip.taken.view d =
      { s.clip.view d with staging := P.staging, out := [], reports := [], jobs := [] } := by
    intro d
    rw [← hbalanced.staging_seeing hmem]
    cases d <;> rfl
  show s'.clip.staging.held + jobBytes (P.scans ++ s'.clip.jobs) ≤ P.staging.max
  rw [jobBytes_append]
  cases hround with
  | @heard d hd heard move frame =>
    rw [hview] at move
    have hshare : (s.clip.direction d).phase.share ≤ s.share := by
      rw [s.share_eq d]
      exact Nat.le_add_right _ _
    refine move.room rfl (hshare.trans hle) hlt (accounted hrun' d) h ?_ ?_
    · rintro resp w f files rfl hwaiting howed hread
      exact hcopies.listed i l s d resp w f files rfl hs heard hwaiting howed hread
    · rintro resp f c rfl hfetches hbytes
      exact hcopies.complete i l s d resp f c rfl hs heard hfetches hbytes
  | aside event heard aside =>
    have hstaging : s'.clip.staging = P.staging := aside.staging.trans (hbalanced.staging_seeing hmem)
    rw [hstaging, aside.jobs]
    exact h
  | @deadline m event up down =>
    have hjobs : s'.clip.jobs = [] := down.jobs.trans up.jobs
    have hfewer : s'.share ≤ s.share := by
      have hup := up.share_le
      have hdown := down.share_le
      rw [show m.direction .download = s.clip.direction .download from up.other] at hdown
      rw [← show s'.clip.direction .upload = m.direction .upload from down.other] at hup
      exact Nat.add_le_add hup hdown
    have hroom : P.staging.held + jobBytes P.scans ≤ P.staging.max := h
    rw [hjobs]
    show s'.clip.staging.held + (jobBytes P.scans + 0) ≤ P.staging.max
    omega
  | staged event clip =>
    rw [event] at htask
    cases htask

theorem Roomy.step (h : P.Roomy) (hbalanced : P.Balanced) (hturn : P.Turn o P') (hcopies : CopiesFit ⟨P, o, P'⟩) :
    P'.Roomy := by
  cases hturn with
  | opens => exact h
  | moved session task step => exact h.moved hbalanced session task step hcopies
  | failed session | closes session =>
    rw [hbalanced.ended_eq session]
    exact (Nat.add_le_add_right (Nat.sub_le _ _) _).trans h
  | @scanEnds job running =>
    have hjob := jobBytes_erase running
    have hroom : P.staging.held + jobBytes P.scans ≤ P.staging.max := h
    show P.staging.held + jobBytes (P.scans.erase job) ≤ P.staging.max
    omega

theorem Balanced.memory_le (h : P.Balanced) : P.memory ≤ P.staging.held + P.scanBytes := by
  have hcovers : (P.sessions.map Session.contentBytes).sum ≤ (P.sessions.map Session.share).sum := by
    refine List.sum_le_sum fun s hs => ?_
    obtain ⟨⟨staging, tr, hrun⟩, -, hreserves⟩ := h.shares s hs
    exact Nat.add_le_add ((hreserves .upload).covers (accounted hrun .upload))
      ((hreserves .download).covers (accounted hrun .download))
  rw [h.held]
  exact Nat.add_le_add_right hcovers _

end Pool

/-- Staged memory is bounded where the copies are counted: in every run in which they are, all contents of
files in memory come to no more than the maximum. -/
theorem memory_bounded {max : Nat} {tr : List (Entry Pool Occurrence)} {P : Pool} (word : max < 2 ^ 64)
    (run : PoolRun max tr P) (copies : ∀ e ∈ tr, CopiesFit e) : P.memory ≤ max := by
  have hboth : P.Balanced ∧ P.Roomy ∧ P.staging.max = max := by
    refine (run.restrict copies).invariant ⟨.start word, Nat.zero_le _, rfl⟩ ?_
    rintro P o P' ⟨hbalanced, hroomy, hmax⟩ ⟨hstep, hcopies⟩
    have hturn := Pool.turn hstep
    refine ⟨hbalanced.step hturn hcopies.noneWraps, hroomy.step hbalanced hturn hcopies, ?_⟩
    cases hturn with
    | failed session | closes session =>
      rw [hbalanced.ended_eq session]
      exact hmax
    | _ => exact hmax
  obtain ⟨hbalanced, hroomy, rfl⟩ := hboth
  exact hbalanced.memory_le.trans hroomy

/-- In this step there is room for what a list declares, and for the copies of an offer, beside what is
reserved and what the scans hold. -/
def roomFor (e : Entry Pool Occurrence) : Bool :=
  let fits := fun files : List FileDescriptor => decide (declared files < 2 ^ 64) &&
    decide (e.pre.staging.held + declared files + e.pre.scanBytes ≤ e.pre.staging.max)
  match e.label with
  | .round i l => e.pre.sessions[i]?.all fun s => match l.event.heard with
    | some (_, .dataAnswer resp _) => resp.toFileList.all fits
    | some (d, .contentsAnswer _) => match (s.clip.direction d).phase with
      | .fetching { step := .contents c, .. } => fits c.files
      | _ => true
    | _ => true
  | _ => true

theorem copiesFit_of_roomFor (h : tr.all roomFor = true) : ∀ e ∈ tr, CopiesFit e := by
  intro e he
  have hroom := List.all_eq_true.1 h e he
  constructor
  · intro i l s d resp w f files hlabel hs hheard _ _ hread
    simp only [roomFor, hlabel, hs, hheard, hread, Option.all_some, Bool.and_eq_true, decide_eq_true_eq] at hroom
    exact ⟨hroom.1, fun _ => hroom.2⟩
  · intro i l s d resp f c hlabel hs hheard hfetches _
    obtain ⟨generation, list, fileList, step, deadline, reservation⟩ := f
    obtain ⟨hphase, hstep⟩ := hfetches
    obtain rfl : step = .contents c := hstep
    simp only [roomFor, hlabel, hs, hheard, hphase, Option.all_some, Bool.and_eq_true, decide_eq_true_eq] at hroom
    exact hroom.2

/-- A file of three bytes is offered and sent: its scan starts. -/
def sendThree : List Event :=
  [offerFile, listSizes [3], .pdu .client (sent (.fileContentsResponse (.newDataResponse firstStream [1, 2, 3])))]

/-- In a pool with room for the copy the file and its copy are within the maximum. -/
theorem memory_bounded_three : ∃ P, PoolRun 100 (trace Pool.step { staging := ⟨0, 100⟩ } (oneSession sendThree)) P ∧
    P.memory = 6 ∧ P.memory ≤ 100 := by
  obtain ⟨P, hrun, hmemory⟩ := oneSession_run 100 sendThree (fun P => P.memory == 6) (by decide +kernel)
  exact ⟨P, hrun, by simpa using hmemory,
    memory_bounded (by decide) hrun (copiesFit_of_roomFor (by decide +kernel))⟩

/-- In a pool of three bytes the file is let in, and its scan holds another three. When the client then makes
another offer, the reservation is given back while the scan goes on, and a second file is let in beside
it: nine bytes are in memory. -/
theorem memory_exceeds_max :
    (∃ P, PoolRun 3 (trace Pool.step { staging := ⟨0, 3⟩ } (oneSession sendThree)) P ∧ P.memory = 6) ∧
    ∃ P, PoolRun 3 (trace Pool.step { staging := ⟨0, 3⟩ } (oneSession (sendThree ++ [offerFile, listSizes [3],
      .pdu .client (sent (.fileContentsResponse (.newDataResponse (firstStream + 2) [1, 2, 3])))]))) P ∧
      P.memory = 9 := by
  constructor
  · obtain ⟨P, hrun, hmemory⟩ := oneSession_run 3 sendThree (fun P => P.memory == 6) (by decide +kernel)
    exact ⟨P, hrun, by simpa using hmemory⟩
  · obtain ⟨P, hrun, hmemory⟩ := oneSession_run 3 (sendThree ++ [offerFile, listSizes [3],
      .pdu .client (sent (.fileContentsResponse (.newDataResponse (firstStream + 2) [1, 2, 3])))])
      (fun P => P.memory == 9) (by decide +kernel)
    exact ⟨P, hrun, by simpa using hmemory⟩

end WebAccess.Scan
