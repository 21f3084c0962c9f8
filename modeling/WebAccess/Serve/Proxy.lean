/-
The proxy as a transition system. Requests come in at any time and run as tasks; a connection
starts when its upgrade registers it, under the number the registry gave it, and goes through its
phases: it waits for the client's request, is being admitted, is refused or admitted, has its
opening recorded, carries bytes, and closes. Each act is one call of one task or connection, so a
run of acts is one interleaving of all of them. A connection may close at any time, whatever ended
it, and a task may stop for good, as a request does that is dropped while it waits.
-/
import WebAccess.Lib.Transition
import WebAccess.Serve.Reports
import WebAccess.Serve.Routes

namespace WebAccess

open Codec Wire Process Transition

/-! ## States -/

/-- What runs as a task: a request of a route, the check of the directory's accounts, what a
connection starts, and a tool in a process of its own. -/
inductive Request
  | http (r : Route) (sent : Option Text)
  | revocationPass (lookupEach : LookupEach)
  | recordOpen (liveId : Nat) (user : User) (target : Server) (addr : Text)
  | recordEnd (e : Ended)
  | report (user : User) (server : Text) (database : Nat) (r : Scan.Report)
  | tool (t : Tool)

/-- What a request runs. An opening that is not recorded counts as an error. -/
def Request.program : Request → Prog Api (ApiResult Reply)
  | http r sent => r.program sent
  | revocationPass lookupEach => Route.plain (WebAccess.revocationPass lookupEach)
  | recordOpen liveId user target addr => do
    if ← WebAccess.recordOpen liveId user target addr then pure (.ok .done) else pure (.error .replacedMeanwhile)
  | recordEnd e => do
    WebAccess.recordEnd e
    pure (.ok .done)
  | report user server database r => Route.plain (WebAccess.report user server database r)
  | tool t => do
    t.program
    pure (.ok .done)

/-- A request, the task that runs it, and the databases its reads were answered from, which nothing
reads. -/
structure Running where
  request : Request
  task : Task Api (ApiResult Reply)
  seen : List Nat := []

/-- Where a connection is. An opening is recorded by a task, whose place is kept. -/
inductive Phase
  | upgraded
  | admitting (task : Task Api (Except Refusal Server))
  | refused (r : Refusal)
  | admitted (target : Server)
  | opening (target : Server) (i : Nat)
  | established (target : Server)
  | closed

/-- The server of a connection that has been admitted and is not over. -/
def Phase.target? : Phase → Option Server
  | admitted target | opening target _ | established target => some target
  | upgraded | admitting _ | refused _ | closed => none

/-- `Session`: a connection, opened by a user under a sign-in; the database it was registered in,
and all those its reads were answered from, which nothing reads. -/
structure Session where
  user : User
  tokenHash : Bytes
  database : Nat
  seen : List Nat
  phase : Phase := .upgraded

/-- The proxy. The number of a connection in the registry is its place in `sessions`. -/
structure Proxy where
  app : App := {}
  tasks : List Running := []
  sessions : List Session := []

/-- What happens next: a request comes in or makes a call, or a connection takes a step. -/
inductive Act
  | request (r : Request)
  | call (i : Nat) (w : World)
  | ask (id : Nat) (targetId proxyAuth : Text)
  | admission (id : Nat) (w : World)
  | opens (id : Nat) (addr : Text)
  | establish (id : Nat)
  | report (id : Nat) (r : Scan.Report)
  | close (id : Nat)

/-! ## Steps -/

def Request.external : Request → Bool
  | recordOpen .. | recordEnd _ | report .. => false
  | _ => true

/-- A request before its first call. -/
def Request.start (r : Request) (seen : List Nat := []) : Running := ⟨r, { prog := r.program }, seen⟩

/-- The calls whose answers come from the database or from what goes with it. `adminToken` is not
one of them: what it says is only used to turn a request away. -/
def Call.reads : Call → Bool
  | .acquire _ | .release | .lockExport | .unlockExport | .now | .randomKey | .randomToken | .hostName | .protector
  | .generation | .adminToken _ => false
  | _ => true

def Call.sees (c : Call) (database : Nat) (seen : List Nat) : List Nat := if c.reads then seen ++ [database] else seen

def Running.went (t : Running) (database : Nat) (e : Event Api) (task : Task Api (ApiResult Reply)) : Running :=
  { t with task, seen := e.call.sees database t.seen }

/-- The admission goes on, or has decided. -/
def Phase.ofTask (t : Task Api (Except Refusal Server)) : Phase :=
  match t.prog with
  | .ret (.ok target) => .admitted target
  | .ret (.error r) => .refused r
  | .call _ _ => .admitting t

def spawned (database : Nat) : Event Api → List Session
  | ⟨.register user tokenHash, _⟩ => [{ user, tokenHash, database, seen := [database] }]
  | _ => []

namespace Proxy

def setPhase (s : Proxy) (id : Nat) (x : Session) (phase : Phase) : Proxy :=
  { s with sessions := s.sessions.set id { x with phase } }

variable {s : Proxy}

theorem sessions_setPhase {id id' : Nat} {x x' : Session} {phase : Phase}
    (h : (s.setPhase id x phase).sessions[id']? = some x') :
    id' = id ∧ x' = { x with phase } ∨ id' ≠ id ∧ s.sessions[id']? = some x' := by
  unfold setPhase at h
  by_cases hid : id' = id
  · subst hid
    simp only [List.getElem?_set, if_true] at h
    split at h
    · exact .inl ⟨rfl, (Option.some_inj.1 h).symm⟩
    · cases h
  · rw [List.getElem?_set_ne (Ne.symm hid)] at h
    exact .inr ⟨hid, h⟩

def spawn (s : Proxy) (more : List Running) : Proxy := { s with tasks := s.tasks ++ more }

def setLive (s : Proxy) (live : LiveSessions) : Proxy := { s with app := { s.app with live } }

def result? (s : Proxy) (i : Nat) : Option (ApiResult Reply) := s.tasks[i]?.bind (·.task.prog.result?)

def step (s : Proxy) : Act → Option Proxy
  | .request r => if r.external then some (s.spawn [r.start]) else none
  | .call i w => do
    let t ← s.tasks[i]?
    let (e, task, app) ← t.task.step (App.serve (.task i) w) s.app
    some ⟨app, s.tasks.set i (t.went s.app.imports e task), s.sessions ++ spawned s.app.imports e⟩
  | .ask id targetId proxyAuth => do
    let x ← s.sessions[id]?
    match x.phase with
    | .upgraded => some (s.setPhase id x (.admitting { prog := admitSession id x.user x.tokenHash targetId proxyAuth }))
    | _ => none
  | .admission id w => do
    let x ← s.sessions[id]?
    match x.phase with
    | .admitting t => do
      let (e, t', app) ← t.step (App.serve (.session id) w) s.app
      some ({ s with app }.setPhase id { x with seen := e.call.sees s.app.imports x.seen } (.ofTask t'))
    | _ => none
  | .opens id addr => do
    let x ← s.sessions[id]?
    match x.phase with
    | .admitted target =>
      some ((s.spawn [(Request.recordOpen id x.user target addr).start x.seen]).setPhase id x
        (.opening target s.tasks.length))
    | _ => none
  | .establish id => do
    let x ← s.sessions[id]?
    match x.phase with
    | .opening target i =>
      match s.result? i with
      | some (.ok _) => some ((s.setLive (s.app.live.setEstablished id)).setPhase id x (.established target))
      | some (.error _) => some (s.setPhase id x (.refused .superseded))
      | none => none
    | _ => none
  | .report id r => do
    let x ← s.sessions[id]?
    match x.phase with
    | .established target => some (s.spawn [(Request.report x.user target.name x.database r).start x.seen])
    | _ => none
  | .close id => do
    let x ← s.sessions[id]?
    match x.phase with
    | .closed => none
    | _ =>
      let r := s.app.live.remove id
      some (((s.setLive r.2).spawn (r.1.toList.map fun e => (Request.recordEnd e).start x.seen)).setPhase id x
        .closed)

/-! ## What a step is -/

inductive Turn (s : Proxy) : Act → Proxy → Prop
  | request (r : Request) (external : r.external = true) : Turn s (.request r) (s.spawn [r.start])
  | call {i : Nat} {w : World} {t : Running} {e : Event Api} {task : Task Api (ApiResult Reply)} {app : App}
      (running : s.tasks[i]? = some t) (made : t.task.step (App.serve (.task i) w) s.app = some (e, task, app)) :
      Turn s (.call i w) ⟨app, s.tasks.set i (t.went s.app.imports e task), s.sessions ++ spawned s.app.imports e⟩
  | ask {id : Nat} {x : Session} {targetId proxyAuth : Text} (session : s.sessions[id]? = some x)
      (phase : x.phase = .upgraded) : Turn s (.ask id targetId proxyAuth)
        (s.setPhase id x (.admitting { prog := admitSession id x.user x.tokenHash targetId proxyAuth }))
  | admission {id : Nat} {w : World} {x : Session} {t t' : Task Api (Except Refusal Server)} {e : Event Api}
      {app : App} (session : s.sessions[id]? = some x) (phase : x.phase = .admitting t)
      (made : t.step (App.serve (.session id) w) s.app = some (e, t', app)) :
      Turn s (.admission id w)
        ({ s with app }.setPhase id { x with seen := e.call.sees s.app.imports x.seen } (.ofTask t'))
  | opens {id : Nat} {x : Session} {target : Server} {addr : Text} (session : s.sessions[id]? = some x)
      (phase : x.phase = .admitted target) : Turn s (.opens id addr)
        ((s.spawn [(Request.recordOpen id x.user target addr).start x.seen]).setPhase id x
          (.opening target s.tasks.length))
  | established {id i : Nat} {x : Session} {target : Server} (session : s.sessions[id]? = some x)
      (phase : x.phase = .opening target i) {reply : Reply} (opened : s.result? i = some (.ok reply)) :
        Turn s (.establish id)
        ((s.setLive (s.app.live.setEstablished id)).setPhase id x (.established target))
  | superseded {id i : Nat} {x : Session} {target : Server} {e : ApiError} (session : s.sessions[id]? = some x)
      (phase : x.phase = .opening target i) (opened : s.result? i = some (.error e)) :
      Turn s (.establish id) (s.setPhase id x (.refused .superseded))
  | report {id : Nat} {x : Session} {target : Server} (r : Scan.Report) (session : s.sessions[id]? = some x)
      (phase : x.phase = .established target) :
      Turn s (.report id r) (s.spawn [(Request.report x.user target.name x.database r).start x.seen])
  | close {id : Nat} {x : Session} (session : s.sessions[id]? = some x) : Turn s (.close id)
      (((s.setLive (s.app.live.remove id).2).spawn
        ((s.app.live.remove id).1.toList.map fun e => (Request.recordEnd e).start x.seen)).setPhase id x .closed)

variable {s' : Proxy} {a : Act}

theorem turn (h : s.step a = some s') : Turn s a s' := by
  cases a with
  | request r =>
    simp only [step] at h
    split at h
    · rename_i hexternal
      cases h
      exact .request r hexternal
    · cases h
  | call i w =>
    obtain ⟨t, ht, h⟩ := Option.bind_eq_some_iff.1 h
    obtain ⟨⟨e, task, app⟩, hmade, h⟩ := Option.bind_eq_some_iff.1 h
    cases h
    exact .call ht hmade
  | ask id targetId proxyAuth =>
    obtain ⟨x, hx, h⟩ := Option.bind_eq_some_iff.1 h
    split at h
    · rename_i hphase
      cases h
      exact .ask hx hphase
    · cases h
  | admission id w =>
    obtain ⟨x, hx, h⟩ := Option.bind_eq_some_iff.1 h
    split at h
    · rename_i t hphase
      obtain ⟨⟨e, t', app⟩, hmade, h⟩ := Option.bind_eq_some_iff.1 h
      cases h
      exact .admission hx hphase hmade
    · cases h
  | opens id addr =>
    obtain ⟨x, hx, h⟩ := Option.bind_eq_some_iff.1 h
    split at h
    · rename_i target hphase
      cases h
      exact .opens hx hphase
    · cases h
  | establish id =>
    obtain ⟨x, hx, h⟩ := Option.bind_eq_some_iff.1 h
    split at h
    · rename_i target i hphase
      split at h
      · rename_i reply hopened
        cases h
        exact .established hx hphase hopened
      · rename_i e hopened
        cases h
        exact .superseded hx hphase hopened
      · cases h
    · cases h
  | report id r =>
    obtain ⟨x, hx, h⟩ := Option.bind_eq_some_iff.1 h
    split at h
    · rename_i target hphase
      cases h
      exact .report r hx hphase
    · cases h
  | close id =>
    obtain ⟨x, hx, h⟩ := Option.bind_eq_some_iff.1 h
    split at h
    · cases h
    · cases h
      exact .close hx

/-- Where a request comes from: outside, or a connection that opens, reports or ends. -/
inductive Starts (s : Proxy) (a : Act) : Request → Prop
  | outside {r : Request} (label : a = .request r) (external : r.external = true) : Starts s a r
  | opens {id : Nat} {user : User} {target : Server} {addr : Text} : Starts s a (.recordOpen id user target addr)
  | report {id : Nat} {x : Session} {server : Text} {what : Scan.Report} (session : s.sessions[id]? = some x) :
      Starts s a (.report x.user server x.database what)
  | ends {e : Ended} : Starts s a (.recordEnd e)

/-- A step starts requests, or one task makes a call. -/
theorem tasks_step (hstep : s.step a = some s') :
    (∃ more, s'.tasks = s.tasks ++ more ∧ ∀ t ∈ more, ∃ r seen, s.Starts a r ∧ t = r.start seen) ∨
      ∃ i w t e task app, a = .call i w ∧ s.tasks[i]? = some t ∧
        t.task.step (App.serve (.task i) w) s.app = some (e, task, app) ∧
        s'.tasks = s.tasks.set i (t.went s.app.imports e task) := by
  have hone : ∀ {r : Request} {seen}, s.Starts a r → ∀ t ∈ [r.start seen], ∃ r seen, s.Starts a r ∧ t = r.start seen :=
    fun hr t ht => ⟨_, _, hr, List.mem_singleton.1 ht⟩
  cases turn hstep with
  | request r external => exact .inl ⟨_, rfl, hone (.outside rfl external)⟩
  | call running made => exact .inr ⟨_, _, _, _, _, _, rfl, running, made, rfl⟩
  | opens => exact .inl ⟨_, rfl, hone .opens⟩
  | report r session => exact .inl ⟨_, rfl, hone (.report session)⟩
  | close =>
    refine .inl ⟨_, rfl, fun t ht => ?_⟩
    obtain ⟨e, -, rfl⟩ := List.mem_map.1 ht
    exact ⟨_, _, .ends, rfl⟩
  | _ => exact .inl ⟨[], (List.append_nil _).symm, by simp⟩

/-- What every task has: as it starts, and after each of its calls. -/
theorem tasks_of_step {Q : Running → Prop} (hstep : s.step a = some s') (h : ∀ t ∈ s.tasks, Q t)
    (hstart : ∀ (r : Request) seen, s.Starts a r → Q (r.start seen))
    (hcall : ∀ i w t e task app, s.tasks[i]? = some t →
      t.task.step (App.serve (.task i) w) s.app = some (e, task, app) → Q t → Q (t.went s.app.imports e task)) :
    ∀ t ∈ s'.tasks, Q t := by
  intro u hu
  rcases tasks_step hstep with ⟨more, htasks, hmore⟩ | ⟨i, w, t, e, task, app, -, ht, hmade, htasks⟩ <;>
    rw [htasks] at hu
  · rcases List.mem_append.1 hu with hu | hu
    · exact h u hu
    · obtain ⟨r, seen, hr, rfl⟩ := hmore u hu
      exact hstart r seen hr
  · rcases List.mem_or_eq_of_mem_set hu with hu | rfl
    · exact h u hu
    · exact hcall i w t e task app ht hmade (h t (List.mem_of_getElem? ht))

end Proxy

/-! ## Runs -/

/-- What the service starts with: its configuration, its host's protector, the database it finds,
and what it draws if that has no key or no instance. -/
structure Boot where
  hostName : Text := []
  bootstrapAdmins : List Text := []
  protector : Protector := 0
  store : Store := {}
  key : Key := 0
  instanceId : Text := []
  now : Int := 0

namespace Boot

/-- The database once the service has started: `new_instance`, if it has none, and
`lift_stranded_freeze`. -/
def settled (b : Boot) (store : Store) : Store :=
  let store := { store with instanceId := store.instanceId.or (some b.instanceId) }
  if store.freezePending then
    { store with frozen := false, freezePending := false }.audit ⟨"system", "unfreeze",
      "the export that froze this proxy did not finish"⟩ b.now
  else store

/-- `App::for_serving`, with `Vault::load`. -/
def app (b : Boot) : App :=
  let app : App := { hostName := b.hostName, bootstrapAdmins := b.bootstrapAdmins, protector := b.protector }
  match b.store.masterLocal, b.store.masterRecovery with
  | some wrapped, _ => { app with store := b.settled b.store, vault := Vault.unprotect b.protector wrapped }
  | none, some _ => { app with store := b.settled b.store }
  | none, none => { app with
      store := b.settled { b.store with masterLocal := some (Vault.protect b.protector b.key) }
      vault := some b.key }

theorem app_eq (b : Boot) : ∃ store vault, b.app =
    { hostName := b.hostName, bootstrapAdmins := b.bootstrapAdmins, protector := b.protector, store, vault } := by
  unfold app
  split <;> exact ⟨_, _, rfl⟩

theorem app_live (b : Boot) : b.app.live = {} := by
  obtain ⟨store, vault, happ⟩ := b.app_eq
  rw [happ]

theorem app_sessions (b : Boot) : b.app.store.sessions = b.store.sessions := by
  have hsettled : ∀ store, (b.settled store).sessions = store.sessions := by
    intro store
    simp only [settled]
    split <;> rfl
  unfold app
  split <;> simp only [hsettled]

def start (b : Boot) : Proxy := { app := b.app }

end Boot

abbrev ProxyTrace := List (Entry Proxy Act)

/-- The runs of a proxy from its start. -/
abbrev ProxyRun (b : Boot) : ProxyTrace → Proxy → Prop := Run (fun s a s' => s.step a = some s') b.start

/-- What a proxy in some state goes on to do. -/
abbrev ProxyPath : Proxy → ProxyTrace → Proxy → Prop := Run fun s a s' => s.step a = some s'

/-- The calls of one task, one after another. -/
def calls (i n : Nat) (w : World := {}) : List Act := List.replicate n (.call i w)

/-- The run in which the proxy does what a script says. -/
def scriptedProxy (b : Boot) (acts : List Act) : ProxyTrace := trace Proxy.step b.start acts

theorem scriptedProxy_run (b : Boot) (acts : List Act) (P : Proxy → Bool)
    (h : (exec Proxy.step b.start acts).any P = true) :
    ∃ s, ProxyRun b (scriptedProxy b acts) s ∧ P s = true :=
  run_of_exec Proxy.step b.start acts P h

/-- The call of a request that a step is, and its answer. -/
def taskCall (e : Entry Proxy Act) : Option (Running × Event Api) :=
  match e.label with
  | .call i w => do
    let t ← e.pre.tasks[i]?
    let r ← t.task.step (App.serve (.task i) w) e.pre.app
    some (t, r.1)
  | _ => none

variable {e : Entry Proxy Act} {ev : Event Api}

theorem taskCall_eq_some {t : Running} (h : taskCall e = some (t, ev)) :
    ∃ i w task app, e.label = .call i w ∧ e.pre.tasks[i]? = some t ∧
      t.task.step (App.serve (.task i) w) e.pre.app = some (ev, task, app) := by
  unfold taskCall at h
  split at h
  · rename_i i w hlabel
    obtain ⟨u, hu, h⟩ := Option.bind_eq_some_iff.1 h
    obtain ⟨⟨ev', task, app⟩, hmade, h⟩ := Option.bind_eq_some_iff.1 h
    cases h
    exact ⟨i, w, task, app, hlabel, hu, hmade⟩
  · cases h

theorem taskCall_of_label {t : Running} {i : Nat} {w : World} (h : taskCall e = some (t, ev))
    (hlabel : e.label = .call i w) : ∃ task app, e.pre.tasks[i]? = some t ∧
      t.task.step (App.serve (.task i) w) e.pre.app = some (ev, task, app) := by
  obtain ⟨j, w', task, app, hlabel', ht, hmade⟩ := taskCall_eq_some h
  obtain ⟨rfl, rfl⟩ := Act.call.inj (hlabel.symm.trans hlabel')
  exact ⟨task, app, ht, hmade⟩

/-- The call of an admission a step is, with the connection as it was. -/
def sessionCall (e : Entry Proxy Act) : Option (Nat × Session × Event Api) :=
  match e.label with
  | .admission id w => do
    let x ← e.pre.sessions[id]?
    match x.phase with
    | .admitting t => do
      let r ← t.step (App.serve (.session id) w) e.pre.app
      some (id, x, r.1)
    | _ => none
  | _ => none

theorem sessionCall_eq_some {id : Nat} {x : Session} (h : sessionCall e = some (id, x, ev)) :
    ∃ w t t' app, e.label = .admission id w ∧ e.pre.sessions[id]? = some x ∧ x.phase = .admitting t ∧
      t.step (App.serve (.session id) w) e.pre.app = some (ev, t', app) := by
  unfold sessionCall at h
  split at h
  · rename_i id' w hlabel
    obtain ⟨y, hy, h⟩ := Option.bind_eq_some_iff.1 h
    split at h
    · rename_i t hphase
      obtain ⟨⟨ev', t', app⟩, hmade, h⟩ := Option.bind_eq_some_iff.1 h
      cases h
      exact ⟨w, t, t', app, hlabel, hy, hphase, hmade⟩
    · cases h
  · cases h

end WebAccess
