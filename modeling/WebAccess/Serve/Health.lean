/-
The standing of the checks that run by themselves (`server.rs`, `scan/mod.rs`): the revocation passes keep a
health record that some outcomes leave as it is and others change in part, the scanner's checks keep one that
each of them overwrites. Both ask for an activity line when their standing changes, and the lines of each
alternate whatever the outcomes are.
-/
import WebAccess.Lib.Edges
import WebAccess.Serve.Edits

namespace WebAccess

open Wire Edges

/-! ## Revocation passes -/

structure RevocationHealth where
  lastRun : Option Int := none
  lastOk : Option Int := none
  error : Option Text := none
  checked : Nat := 0
  unread : List Text := []

/-- What `revocation_pass` ended with, its error as a text: none is that no checks are configured. -/
abbrev PassOutcome := Except Text (Option Pass)

/-- `record_revocation`: the health it leaves, and the activity line it asks for. -/
def recordRevocation (health : RevocationHealth) (outcome : PassOutcome) (now : Int) :
    RevocationHealth × Option (Text × Text) :=
  let wasFailing := health.error.isSome
  match outcome with
  | .ok none => (health, none)
  | .error e =>
    ({ health with lastRun := some now, error := some e },
      if !wasFailing then some ("revocation.failing", e) else none)
  | .ok (some pass) =>
    let health := { health with lastRun := some now, checked := pass.checked, unread := pass.unread }
    if pass.checked = 0 ∧ pass.unread ≠ [] then
      let e := "none of the " ++ number pass.unread.length ++ " signed-in account(s) could be looked up"
      ({ health with error := some e }, if !wasFailing then some ("revocation.failing", e) else none)
    else
      ({ health with lastOk := some now, error := none },
        if wasFailing then some ("revocation.restored", []) else none)

/-- The lines `directory_checks` is asked for by a sequence of passes, from the start of the service. -/
def revocationLines (outcomes : List (PassOutcome × Int)) : List (Text × Text) :=
  lines (fun health o => recordRevocation health o.1 o.2) {} outcomes

/-- A pass that could not run, or that found accounts to check and could look up none of them. -/
def PassOutcome.Failed : PassOutcome → Prop
  | .error _ => True
  | .ok none => False
  | .ok (some pass) => pass.checked = 0 ∧ pass.unread ≠ []

def revocationAction (failing : Bool) : Text :=
  if failing then "revocation.failing" else "revocation.restored"

theorem revocationAction_failing {failing : Bool} :
    revocationAction failing = "revocation.failing" ↔ failing = true := by
  cases failing <;> decide

theorem recordRevocation_cases (health : RevocationHealth) (outcome : PassOutcome) (now : Int) :
    (outcome = .ok none ∧ recordRevocation health outcome now = (health, none)) ∨
    (outcome.Failed ∧ ∃ after e, after.error = some e ∧ recordRevocation health outcome now =
      (after, if !health.error.isSome then some (revocationAction true, e) else none)) ∨
    (outcome ≠ .ok none ∧ ¬outcome.Failed ∧ ∃ after, after.error = none ∧ recordRevocation health outcome now =
      (after, if health.error.isSome then some (revocationAction false, []) else none)) := by
  match outcome with
  | .ok none => exact .inl ⟨rfl, rfl⟩
  | .error e => exact .inr (.inl ⟨trivial, _, e, rfl, rfl⟩)
  | .ok (some pass) =>
    by_cases h : pass.checked = 0 ∧ pass.unread ≠ []
    · exact .inr (.inl ⟨h, _, _, rfl, if_pos h⟩)
    · exact .inr (.inr ⟨nofun, h, _, rfl, if_neg h⟩)

theorem failing_recordRevocation (health : RevocationHealth) {outcome : PassOutcome} (now : Int)
    (h : outcome ≠ .ok none) :
    (recordRevocation health outcome now).1.error.isSome = true ↔ outcome.Failed := by
  rcases recordRevocation_cases health outcome now with ⟨hnot, -⟩ | ⟨hfailed, _, _, he, heq⟩ | ⟨-, hfine, _, he, heq⟩
  · exact absurd hnot h
  · simp [heq, he, hfailed]
  · simp [heq, he, hfine]

theorem detects_recordRevocation :
    Detects (fun health (o : PassOutcome × Int) => recordRevocation health o.1 o.2) (·.error.isSome) revocationAction
      Prod.fst := by
  intro health o
  rcases recordRevocation_cases health o.1 o.2 with ⟨-, heq⟩ | ⟨-, after, e, he, heq⟩ | ⟨-, -, after, he, heq⟩ <;>
    simp only [heq]
  · simp
  · cases hwas : health.error.isSome <;> simp [he]
  · cases hwas : health.error.isSome <;> simp [he]

/-! ## Checks of the scanner -/

structure Health where
  scanner : Text
  ok : Bool := false
  detail : Text := []
  checkedAt : Option Int := none

/-- What came of the task that shows the scanner the two test files: what it found, that it broke, or nothing in
time. -/
inductive CheckJob
  | found (result : Except Text Unit)
  | broke (e : Text)
  | late

/-- The result `check` takes from its task. -/
def CheckJob.result : CheckJob → Except Text Unit
  | found result => result
  | broke e => .error ("the check failed: " ++ e)
  | late => .error "the scanner did not answer in time"

/-- The health a `ScanService` starts with. -/
def Health.unchecked (scanner : Text) : Health := { scanner, detail := "not checked yet" }

/-- `check`: what it makes of the health. -/
def Health.check (h : Health) (job : CheckJob) (now : Int) : Health :=
  { h with
    ok := job.result.isOk
    detail := match job.result with
      | .ok () => "detects the EICAR test file and passes a harmless one"
      | .error e => e
    checkedAt := some now }

def transition (was now : Health) : Option (Text × Text) :=
  let wasFailing := was.checkedAt.isSome && !was.ok
  match wasFailing, now.ok with
  | false, false => some ("scan.failing", now.detail)
  | true, true => some ("scan.restored", now.scanner)
  | _, _ => none

/-- One round of `scan_checks`. -/
def scanCheck (was : Health) (job : CheckJob) (now : Int) : Health × Option (Text × Text) :=
  (was.check job now, transition was (was.check job now))

/-- The lines `scan_checks` writes over a sequence of checks, from the start of the service. -/
def scanLines (scanner : Text) (checks : List (CheckJob × Int)) : List (Text × Text) :=
  lines (fun was c => scanCheck was c.1 c.2) (.unchecked scanner) checks

/-- The check showed that files cannot be scanned. -/
def CheckJob.Failed (job : CheckJob) : Prop := job.result.isOk = false

def scanAction (failing : Bool) : Text := if failing then "scan.failing" else "scan.restored"

theorem scanAction_failing {failing : Bool} : scanAction failing = "scan.failing" ↔ failing = true := by
  cases failing <;> decide

/-- The standing `transition` reads from a health: the last check failed. -/
def Health.failing (h : Health) : Bool := h.checkedAt.isSome && !h.ok

theorem Health.failing_check (h : Health) (job : CheckJob) (now : Int) :
    (h.check job now).failing = true ↔ job.Failed := by
  simp [Health.failing, Health.check, CheckJob.Failed]

theorem detects_scanCheck :
    Detects (fun was (c : CheckJob × Int) => scanCheck was c.1 c.2) Health.failing scanAction Prod.fst := by
  intro was c
  have hok : (was.check c.1 c.2).ok = !(was.check c.1 c.2).failing := by simp [Health.failing, Health.check]
  show (transition was (was.check c.1 c.2)).map Prod.fst = _
  simp only [transition, hok]
  rw [show (was.checkedAt.isSome && !was.ok) = was.failing from rfl]
  cases hwas : was.failing <;> cases hnow : (was.check c.1 c.2).failing <;> simp [scanCheck, hnow, scanAction]

/-! ## The lines alternate -/

/-- Over every sequence of outcomes the lines asked for alternate, failing first, and the last one tells whether the
last outcome that was of a configured pass was a failure. -/
theorem failing_lines_alternate :
    ((∀ outcomes, ∃ n, (revocationLines outcomes).map Prod.fst =
        alternating "revocation.failing".toList "revocation.restored".toList n) ∧
      ∀ outcomes outcome now, outcome ≠ .ok none →
        (((revocationLines (outcomes ++ [(outcome, now)])).map Prod.fst).getLast?.getD "revocation.restored".toList =
          "revocation.failing".toList ↔ outcome.Failed)) ∧
    ∀ scanner, (∀ checks, ∃ n, (scanLines scanner checks).map Prod.fst =
        alternating "scan.failing".toList "scan.restored".toList n) ∧
      ∀ checks job now,
        (((scanLines scanner (checks ++ [(job, now)])).map Prod.fst).getLast?.getD "scan.restored".toList =
          "scan.failing".toList ↔ job.Failed) := by
  refine ⟨⟨fun outcomes => detects_recordRevocation.lines_alternate {} outcomes, ?_⟩,
    fun scanner => ⟨fun checks => detects_scanCheck.lines_alternate (.unchecked scanner) checks, ?_⟩⟩
  · intro outcomes outcome now hconfigured
    have hlast := detects_recordRevocation.last_line {} (outcomes ++ [(outcome, now)])
    rw [final_snoc] at hlast
    refine (Eq.congr hlast rfl).trans (revocationAction_failing.trans ?_)
    exact failing_recordRevocation _ _ hconfigured
  · intro checks job now
    have hlast := detects_scanCheck.last_line (.unchecked scanner) (checks ++ [(job, now)])
    rw [final_snoc] at hlast
    exact (Eq.congr hlast rfl).trans (scanAction_failing.trans (Health.failing_check _ _ _))

/-- A pass that fails, is not configured and fails again asks for one line. -/
theorem failing_lines_down : (.error "down" : PassOutcome) ≠ .ok none ∧
    (((revocationLines ([(.error "down", 20), (.ok none, 30)] ++ [(.error "down", 40)])).map
      Prod.fst).getLast?.getD "revocation.restored" = "revocation.failing" ↔
      PassOutcome.Failed (.error "down")) :=
  ⟨nofun, failing_lines_alternate.1.2 [(.error "down", 20), (.ok none, 30)] (.error "down") 40 nofun⟩

end WebAccess
