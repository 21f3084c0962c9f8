/-
Single use of SAML responses. Calls of `accept` run at the same time: each reads the clock when it is
called, checks its response, and takes the lock of the table of spent ids some time later. The table
forgets an id when a call whose clock is past the time it is held for takes the lock, so what keeps a
response from passing twice is how the cookie of its sign-in expires.

An id is held for `FLOW_SECS` and the skew past the clock of the call that spent it. That covers every
moment at which it could pass again, in every run in which no call takes the lock after one whose clock is
later by more than the skew, and in which no assertion id is presented again for a sign-in that was started
only after the id had been accepted.
-/
import WebAccess.Saml.Wrapping
import WebAccess.Lib.Transition

namespace WebAccess.Saml

open Wire Transition

/-- The sign-ins of a proxy since it started: the requests it issued with the clock they were issued at, the
calls between their checks and the lock, and the calls that took the lock with their answers. -/
structure SignIns where
  now : Int
  issued : List (Text × Int) := []
  spent : Spent := []
  running : List Passed := []
  finished : List (Passed × Except SamlError Verified) := []

/-- Time passes, a sign-in is started, a response arrives and is checked, a call takes the lock. -/
inductive SignInEvent
  | later (now : Int)
  | starts (token : Text)
  | arrives (samlResponse : Text) (flow : Option Text)
  | locks (call : Nat)

/-- The calls that succeeded, in the order they took the lock. -/
def SignIns.accepted (s : SignIns) : List Passed :=
  s.finished.filterMap fun c => if c.2.isOk then some c.1 else none

variable {Key : Type} (lib : Libraries Key) (sp : ServiceProvider)

/-- The hash of a cookie is right, and yet the proxy did not make the cookie. -/
def forged (issued : List (Text × Int)) (flow : Option Text) : Bool :=
  match flow.bind flowParts with
  | none => false
  | some (id, expires, tag) =>
    decide (lib.hmac (signedFlow id expires) = tag ∧
      ∀ r ∈ issued, signedFlow r.1 (r.2 + flowSecs) ≠ signedFlow id expires)

/-- One step. The keyed hash is taken to be unforgeable, and no random token to be drawn twice. -/
def SignIns.step (s : SignIns) : SignInEvent → Option SignIns
  | .later now => if s.now ≤ now then some { s with now } else none
  | .starts token =>
    let id := '_' :: token.take 40
    if ∃ r ∈ s.issued, r.1 = id then none else some { s with issued := s.issued ++ [(id, s.now)] }
  | .arrives samlResponse flow =>
    if forged lib s.issued flow then none
    else
      match acceptChecks lib sp samlResponse flow s.now with
      | .error _ => some s
      | .ok p => some { s with running := s.running ++ [p] }
  | .locks i => s.running[i]?.map fun p =>
    let answer := spend sp s.spent p
    { s with spent := answer.2, running := s.running.eraseIdx i, finished := s.finished ++ [(p, answer.1)] }

/-- The runs of a proxy that was started at a time. -/
abbrev SignInRun (t₀ : Int) : List (Entry SignIns SignInEvent) → SignIns → Prop :=
  Run (fun s e s' => s.step lib sp e = some s') { now := t₀ }

/-! ## The table of spent ids -/

section Table

variable {sp} {spent : Spent} {p : Passed} {key : Text} {time : Int}

theorem mem_retain (h : (key, time) ∈ spent) (htime : p.now < time) : (key, time) ∈ spent.retain p.now :=
  List.mem_filter.2 ⟨h, by simpa using htime⟩

theorem containsKey_of_mem (h : (key, time) ∈ spent) : spent.containsKey key = true :=
  List.any_eq_true.2 ⟨_, h, by simp⟩

theorem mem_insert_self : (key, time) ∈ spent.insert key time := List.mem_cons_self

theorem mem_insert_of_ne {key' : Text} {time' : Int} (h : (key, time) ∈ spent) (hne : key ≠ key') :
    (key, time) ∈ spent.insert key' time' :=
  List.mem_cons_of_mem _ (List.mem_filter.2 ⟨h, by simpa using hne⟩)

theorem requestKey_ne_assertionKey (id id' : Text) : requestKey id ≠ assertionKey id' := by
  intro h
  exact absurd (List.cons.inj h).1 (by decide)

/-- A call that takes the lock is refused and spends nothing, or neither of its ids is held and both are
held from then on. -/
theorem spend_cases (sp : ServiceProvider) (spent : Spent) (p : Passed) :
    ((spend sp spent p).1.isOk = false ∧ (spend sp spent p).2 = spent.retain p.now) ∨
      ((spent.retain p.now).containsKey (requestKey p.requestId) = false ∧
        (spent.retain p.now).containsKey (assertionKey p.assertionId) = false ∧
        (spend sp spent p).2 = ((spent.retain p.now).insert (requestKey p.requestId) (p.now + flowSecs +
          sp.skew)).insert
          (assertionKey p.assertionId) (max p.expires (p.now + flowSecs) + sp.skew)) := by
  unfold spend
  split
  · exact .inl ⟨rfl, rfl⟩
  · rename_i hheld
    split
    · exact .inl ⟨rfl, rfl⟩
    · simp only [not_or, Bool.not_eq_true] at hheld
      exact .inr ⟨hheld.1, hheld.2, rfl⟩

theorem mem_spend (h : (key, time) ∈ spent) (htime : p.now < time) : (key, time) ∈ (spend sp spent p).2 := by
  have hkept := mem_retain h htime
  have hne : ∀ key', (spent.retain p.now).containsKey key' = false → key ≠ key' := by
    rintro key' hfree rfl
    rw [containsKey_of_mem hkept] at hfree
    cases hfree
  rcases spend_cases sp spent p with ⟨-, heq⟩ | ⟨hrequest, hassertion, heq⟩
  · rw [heq]
    exact hkept
  · rw [heq]
    exact mem_insert_of_ne (mem_insert_of_ne hkept (hne _ hrequest)) (hne _ hassertion)

def Passed.keys (p : Passed) : List Text := [requestKey p.requestId, assertionKey p.assertionId]

theorem spend_ok (h : (spend sp spent p).1.isOk = true) : ∀ key ∈ p.keys,
    (∀ time, (key, time) ∈ spent → time ≤ p.now) ∧
      ∃ time, p.now + flowSecs + sp.skew ≤ time ∧ (key, time) ∈ (spend sp spent p).2 := by
  rcases spend_cases sp spent p with ⟨hfail, -⟩ | ⟨hrequest, hassertion, heq⟩
  · rw [hfail] at h
    cases h
  have hfree : ∀ key, (spent.retain p.now).containsKey key = false → ∀ time, (key, time) ∈ spent → time ≤ p.now := by
    intro key hkey time hmem
    by_contra hlate
    rw [containsKey_of_mem (mem_retain hmem (Int.not_le.1 hlate))] at hkey
    cases hkey
  rw [heq]
  intro key hkey
  rcases List.mem_pair.1 hkey with rfl | rfl
  · exact ⟨hfree _ hrequest, _, Int.le_refl _,
      mem_insert_of_ne mem_insert_self (requestKey_ne_assertionKey _ _)⟩
  · exact ⟨hfree _ hassertion, _, by omega, mem_insert_self⟩

end Table

/-! ## What holds in a run -/

/-- The cookie a call came with: its sign-in was started by the proxy, before the call and within the time of a
flow. -/
def Passed.Timely (issued : List (Text × Int)) (now : Int) (p : Passed) : Prop :=
  ∃ started, (p.requestId, started) ∈ issued ∧ started ≤ p.now ∧ p.now < started + flowSecs ∧ p.now ≤ now

theorem Passed.Timely.mono {issued issued' : List (Text × Int)} {now now' : Int} {p : Passed} (h : p.Timely issued now)
    (hissued : issued ⊆ issued') (hnow : now ≤ now') : p.Timely issued' now' := by
  obtain ⟨started, hmem, hbefore, hflow, hpast⟩ := h
  exact ⟨started, hissued hmem, hbefore, hflow, by omega⟩

theorem timely_of_acceptChecks {lib : Libraries Key} {sp : ServiceProvider} {issued : List (Text × Int)}
    {samlResponse : Text} {flow : Option Text} {now : Int} {p : Passed}
    (hpast : ∀ r ∈ issued, r.2 ≤ now) (hforged : forged lib issued flow = false)
    (h : acceptChecks lib sp samlResponse flow now = .ok p) : p.Timely issued now ∧ p.now = now := by
  obtain ⟨requestId, hrequest, h⟩ := bind_ok h
  obtain ⟨doc, -, h⟩ := bind_ok h
  obtain ⟨⟨verified, assertionId, expires⟩, -, h⟩ := bind_ok h
  cases h
  refine ⟨?_, rfl⟩
  unfold flowRequest at hrequest
  unfold forged at hforged
  split at hrequest
  · cases hrequest
  · rename_i id expires' tag hparts
    simp only [hparts, decide_eq_false_iff_not, not_and, not_forall, not_not] at hforged
    split at hrequest
    · cases hrequest
    · rename_i hvalid
      cases hrequest
      obtain ⟨hmac, hcurrent⟩ := not_or.1 hvalid
      obtain ⟨r, hr, hsigned⟩ := hforged (not_not.1 hmac)
      obtain ⟨rfl, rfl⟩ := signedFlow_inj hsigned
      exact ⟨r.2, hr, hpast r hr, Int.not_le.1 hcurrent, Int.le_refl _⟩

/-- The call that takes the lock in a step. -/
def SignInEvent.locking (s : SignIns) : SignInEvent → Option Passed
  | .locks i => s.running[i]?
  | _ => none

/-- No call that took the lock before had a clock that is later by more than the skew. -/
def InTurn (e : Entry SignIns SignInEvent) : Prop :=
  ∀ p ∈ e.label.locking e.pre, ∀ c ∈ e.pre.finished, c.1.now ≤ p.now + sp.skew

/-- Where the assertion id was accepted before, the sign-in it now comes for had been started by then. -/
def BegunBefore (e : Entry SignIns SignInEvent) : Prop :=
  ∀ p ∈ e.label.locking e.pre, ∀ q ∈ e.pre.accepted, q.assertionId = p.assertionId →
    ∀ r ∈ e.pre.issued, r.1 = p.requestId → r.2 ≤ q.now

instance (e : Entry SignIns SignInEvent) : Decidable (InTurn sp e) :=
  inferInstanceAs (Decidable (∀ p ∈ e.label.locking e.pre, ∀ c ∈ e.pre.finished, c.1.now ≤ p.now + sp.skew))

instance (e : Entry SignIns SignInEvent) : Decidable (BegunBefore e) :=
  inferInstanceAs (Decidable (∀ p ∈ e.label.locking e.pre, ∀ q ∈ e.pre.accepted, q.assertionId = p.assertionId →
    ∀ r ∈ e.pre.issued, r.1 = p.requestId → r.2 ≤ q.now))

/-- Every call came with a cookie of its own time, and what was accepted is held or was held for as long as the
time of a flow and the skew. -/
structure SignIns.Guarded (s : SignIns) : Prop where
  past : ∀ r ∈ s.issued, r.2 ≤ s.now
  distinct : ∀ r ∈ s.issued, ∀ r' ∈ s.issued, r.1 = r'.1 → r = r'
  running : ∀ p ∈ s.running, p.Timely s.issued s.now
  finished : ∀ c ∈ s.finished, c.1.Timely s.issued s.now
  held : ∀ q ∈ s.accepted, ∀ key ∈ q.keys,
    (∃ time, q.now + flowSecs + sp.skew ≤ time ∧ (key, time) ∈ s.spent) ∨
      ∃ c ∈ s.finished, q.now + flowSecs + sp.skew ≤ c.1.now
  once : s.accepted.Pairwise fun p q => p.requestId ≠ q.requestId ∧ p.assertionId ≠ q.assertionId

namespace SignIns.Guarded

variable {sp} {s : SignIns}

theorem start (t₀ : Int) : SignIns.Guarded sp { now := t₀ } where
  past := by simp
  distinct := by simp
  running := by simp
  finished := by simp
  held := by simp [accepted]
  once := .nil

theorem later {now : Int} (h : s.Guarded sp) (hnow : s.now ≤ now) : SignIns.Guarded sp { s with now } where
  past r hr := Int.le_trans (h.past r hr) hnow
  distinct := h.distinct
  running p hp := (h.running p hp).mono (List.Subset.refl _) hnow
  finished c hc := (h.finished c hc).mono (List.Subset.refl _) hnow
  held := h.held
  once := h.once

theorem starts {id : Text} (h : s.Guarded sp) (hfresh : ¬ ∃ r ∈ s.issued, r.1 = id) :
    SignIns.Guarded sp { s with issued := s.issued ++ [(id, s.now)] } where
  past r hr := by
    rcases mem_snoc.1 hr with hr | rfl
    · exact h.past r hr
    · exact Int.le_refl _
  distinct r hr r' hr' heq := by
    rcases List.mem_append.1 hr with hr | hr <;> rcases List.mem_append.1 hr' with hr' | hr'
    · exact h.distinct r hr r' hr' heq
    · obtain rfl := List.mem_singleton.1 hr'
      exact absurd ⟨r, hr, heq⟩ hfresh
    · obtain rfl := List.mem_singleton.1 hr
      exact absurd ⟨r', hr', heq.symm⟩ hfresh
    · rw [List.mem_singleton.1 hr, List.mem_singleton.1 hr']
  running p hp := (h.running p hp).mono (List.subset_append_left _ _) (Int.le_refl _)
  finished c hc := (h.finished c hc).mono (List.subset_append_left _ _) (Int.le_refl _)
  held := h.held
  once := h.once

theorem arrives {p : Passed} (h : s.Guarded sp) (hp : p.Timely s.issued s.now) :
    SignIns.Guarded sp { s with running := s.running ++ [p] } where
  past := h.past
  distinct := h.distinct
  running q hq := by
    rcases mem_snoc.1 hq with hq | rfl
    · exact h.running q hq
    · exact hp
  finished := h.finished
  held := h.held
  once := h.once

/-- A call that succeeds has an id in common with no call that succeeded before: the id would still be held, as
the cookie the call came with is younger than the time of a flow. -/
theorem not_held {p q : Passed} {started : Int} {key : Text} (h : s.Guarded sp) (hq : q ∈ s.accepted)
    (hkey : key ∈ q.keys) (hstarted : started ≤ q.now) (hflow : p.now < started + flowSecs)
    (hturn : ∀ c ∈ s.finished, c.1.now ≤ p.now + sp.skew)
    (hfree : ∀ time, (key, time) ∈ s.spent → time ≤ p.now) : False := by
  rcases h.held q hq key hkey with ⟨time, hlong, hmem⟩ | ⟨c, hc, hlong⟩
  · have := hfree time hmem
    omega
  · have := hturn c hc
    omega

theorem mem_finished {q : Passed} (hq : q ∈ s.accepted) : ∃ answer, (q, answer) ∈ s.finished := by
  obtain ⟨c, hc, hok⟩ := List.mem_filterMap.1 hq
  obtain ⟨-, heq⟩ := Option.ite_none_right_eq_some.1 hok
  cases heq
  exact ⟨c.2, hc⟩

theorem fresh {p q : Passed} (h : s.Guarded sp) (hp : p.Timely s.issued s.now) (hq : q ∈ s.accepted)
    (hturn : ∀ c ∈ s.finished, c.1.now ≤ p.now + sp.skew)
    (hbegun : q.assertionId = p.assertionId → ∀ r ∈ s.issued, r.1 = p.requestId → r.2 ≤ q.now)
    (hok : (spend sp s.spent p).1.isOk = true) : q.requestId ≠ p.requestId ∧ q.assertionId ≠ p.assertionId := by
  have hfree : ∀ key ∈ p.keys, ∀ time, (key, time) ∈ s.spent → time ≤ p.now := fun key hkey => (spend_ok hok key hkey).1
  obtain ⟨started, hissued, -, hflow, -⟩ := hp
  refine ⟨fun heq => ?_, fun heq => ?_⟩
  · -- both calls came with the cookie of one sign-in, which had been started before either
    obtain ⟨answer, hfinished⟩ := mem_finished hq
    obtain ⟨started', hissued', hbefore, -, -⟩ := h.finished _ hfinished
    obtain ⟨-, rfl⟩ := Prod.mk.inj (h.distinct _ hissued _ hissued' heq.symm)
    exact h.not_held hq (List.mem_cons_self) hbefore hflow hturn (hfree _ (by simp [Passed.keys, heq]))
  · exact h.not_held hq (by simp [Passed.keys]) (hbegun heq _ hissued rfl) hflow hturn
      (hfree (assertionKey q.assertionId) (by simp [Passed.keys, heq]))

theorem locks {i : Nat} {p : Passed} (h : s.Guarded sp) (hi : s.running[i]? = some p)
    (hturn : ∀ c ∈ s.finished, c.1.now ≤ p.now + sp.skew)
    (hbegun : ∀ q ∈ s.accepted, q.assertionId = p.assertionId → ∀ r ∈ s.issued, r.1 = p.requestId → r.2 ≤ q.now) :
    SignIns.Guarded sp { s with
      spent := (spend sp s.spent p).2
      running := s.running.eraseIdx i
      finished := s.finished ++ [(p, (spend sp s.spent p).1)] } := by
  have hp := h.running p (List.mem_of_getElem? hi)
  -- what is accepted afterwards is what was, and this call if it succeeds
  have haccepted : ∀ s' : SignIns, s'.finished = s.finished ++ [(p, (spend sp s.spent p).1)] →
      s'.accepted = s.accepted ++ if (spend sp s.spent p).1.isOk then [p] else [] := by
    intro s' hs'
    rw [accepted, hs', List.filterMap_append]
    congr 1
    cases hok : (spend sp s.spent p).1.isOk <;> simp [hok]
  refine ⟨h.past, h.distinct, fun q hq => h.running q (List.mem_of_mem_eraseIdx hq), ?_, ?_, ?_⟩
  · intro c hc
    rcases mem_snoc.1 hc with hc | rfl
    · exact h.finished c hc
    · exact hp
  · intro q hq key hkey
    rw [haccepted _ rfl] at hq
    rcases List.mem_append.1 hq with hq | hq
    · rcases h.held q hq key hkey with ⟨time, hlong, hmem⟩ | ⟨c, hc, hlong⟩
      · by_cases htime : p.now < time
        · exact .inl ⟨time, hlong, mem_spend hmem htime⟩
        · exact .inr ⟨_, List.mem_concat_self, by show _ ≤ p.now; omega⟩
      · exact .inr ⟨c, List.mem_append_left _ hc, hlong⟩
    · split at hq
      · rename_i hok
        obtain rfl := List.mem_singleton.1 hq
        exact .inl (spend_ok hok key hkey).2
      · cases hq
  · rw [haccepted _ rfl]
    split
    · rename_i hok
      refine List.pairwise_append.2 ⟨h.once, List.pairwise_singleton _ _, fun q hq x hx => ?_⟩
      obtain rfl := List.mem_singleton.1 hx
      exact h.fresh hp hq hturn (hbegun q hq) hok
    · rw [List.append_nil]
      exact h.once

theorem step {lib : Libraries Key} {e : SignInEvent} {s' : SignIns} (h : s.Guarded sp)
    (hstep : s.step lib sp e = some s')
    (hturn : InTurn sp ⟨s, e, s'⟩) (hbegun : BegunBefore ⟨s, e, s'⟩) : s'.Guarded sp := by
  cases e with
  | later now =>
    obtain ⟨hnow, hs'⟩ := Option.ite_none_right_eq_some.1 hstep
    cases hs'
    exact h.later hnow
  | starts token =>
    obtain ⟨hfresh, hs'⟩ := Option.ite_none_left_eq_some.1 hstep
    cases hs'
    exact h.starts hfresh
  | arrives samlResponse flow =>
    obtain ⟨hforged, hs'⟩ := Option.ite_none_left_eq_some.1 hstep
    split at hs'
    · cases hs'
      exact h
    · rename_i p hp
      cases hs'
      exact h.arrives (timely_of_acceptChecks h.past (by simpa using hforged) hp).1
  | locks i =>
    obtain ⟨p, hp, rfl⟩ := Option.map_eq_some_iff.1 hstep
    exact h.locks hp (hturn p hp) (hbegun p hp)

end SignIns.Guarded

/-! ## Runs of the sample provider -/

/-- One response comes in twice, and a while later another. -/
def repeated : List SignInEvent :=
  [.starts ['1'], .arrives ['1'] (sampleCookie "_1" 0), .arrives ['1'] (sampleCookie "_1" 0), .locks 0, .locks 0,
    .later 1000, .starts ['2'], .arrives ['2'] (sampleCookie "_2" 1000), .locks 0]

/-- Of two calls with one response the second takes the lock after a call whose clock is a thousand seconds on. -/
def stalled : List SignInEvent :=
  [.starts ['1'], .arrives ['1'] (sampleCookie "_1" 0), .arrives ['1'] (sampleCookie "_1" 0), .locks 0, .later 1000,
    .starts ['2'], .arrives ['2'] (sampleCookie "_2" 1000), .locks 1, .locks 0]

/-- An assertion confirms two sign-ins, the second of them started a thousand seconds after the first. -/
def confirmedTwice : List SignInEvent :=
  [.starts ['1'], .arrives ['3'] (sampleCookie "_1" 0), .locks 0, .later 1000, .starts ['2'],
    .arrives ['4'] (sampleCookie "_2" 1000), .locks 0]

abbrev sampleStep : SignIns → SignInEvent → Option SignIns := SignIns.step sampleLibraries sampleProvider

def SignIns.usedIds (s : SignIns) : List (Text × Text) := s.accepted.map fun p => (p.requestId, p.assertionId)

theorem scripts_evaluated :
    ((exec sampleStep { now := 0 } repeated).any fun s => decide (s.finished.length = 3 ∧ s.accepted.length = 2)) ∧
    (∀ e ∈ trace sampleStep { now := 0 } repeated, InTurn sampleProvider e ∧ BegunBefore e) ∧
    ((exec sampleStep { now := 0 } stalled).any fun s =>
      s.usedIds == [("_1".toList, ['a']), ("_2".toList, ['b']), ("_1".toList, ['a'])]) ∧
    ((exec sampleStep { now := 0 } confirmedTwice).any fun s =>
      s.usedIds == [("_1".toList, ['c']), ("_2".toList, ['c'])]) := by
  decide +kernel

/-! ## Single use -/

/-- In every run in which calls take the lock in turn, up to the skew, and no assertion id comes back for a
sign-in started after it was accepted: no two calls that succeeded have a request id in common, and no two an
assertion id. -/
theorem single_use {t₀ : Int} {tr : List (Entry SignIns SignInEvent)} {s : SignIns} (run : SignInRun lib sp t₀ tr s)
    (turn : ∀ e ∈ tr, InTurn sp e) (begun : ∀ e ∈ tr, BegunBefore e) :
    s.accepted.Pairwise fun p q => p.requestId ≠ q.requestId ∧ p.assertionId ≠ q.assertionId := by
  have hguarded : s.Guarded sp := by
    refine (run.restrict fun e he => And.intro (turn e he) (begun e he)).invariant (.start t₀) ?_
    intro s e s' hs hstep
    exact hs.step hstep.1 hstep.2.1 hstep.2.2
  exact hguarded.once

/-- One response comes in twice and is accepted once; a while later another is accepted. -/
theorem single_use_two : ∃ s, SignInRun sampleLibraries sampleProvider 0 (trace sampleStep { now := 0 } repeated) s ∧
    (s.finished.length = 3 ∧ s.accepted.length = 2) ∧
    s.accepted.Pairwise fun p q => p.requestId ≠ q.requestId ∧ p.assertionId ≠ q.assertionId := by
  obtain ⟨hrepeated, hcond, -⟩ := scripts_evaluated
  obtain ⟨s, hrun, hs⟩ := run_of_exec _ _ _ _ hrepeated
  exact ⟨s, hrun, of_decide_eq_true hs, single_use _ _ hrun (fun e he => (hcond e he).1) fun e he => (hcond e he).2⟩

/-- Two ways a response passes twice. In the first run two calls with one response have passed their checks; one
takes the lock at once and the other only after a call whose clock is a thousand seconds on, when the ids have
been forgotten. In the second run no two calls overlap: an assertion confirms two sign-ins, and it comes back
for the one that was started after it had been accepted and forgotten. -/
theorem single_use_fails :
    (∃ s, SignInRun sampleLibraries sampleProvider 0 (trace sampleStep { now := 0 } stalled) s ∧
      s.usedIds = [("_1".toList, ['a']), ("_2".toList, ['b']), ("_1".toList, ['a'])]) ∧
    ∃ s, SignInRun sampleLibraries sampleProvider 0 (trace sampleStep { now := 0 } confirmedTwice) s ∧
      s.usedIds = [("_1".toList, ['c']), ("_2".toList, ['c'])] := by
  obtain ⟨-, -, hstalled, hconfirmed⟩ := scripts_evaluated
  obtain ⟨s, hrun, hs⟩ := run_of_exec _ _ _ _ hstalled
  obtain ⟨s', hrun', hs'⟩ := run_of_exec _ _ _ _ hconfirmed
  exact ⟨⟨s, hrun, beq_iff_eq.1 hs⟩, s', hrun', beq_iff_eq.1 hs'⟩

end WebAccess.Saml
