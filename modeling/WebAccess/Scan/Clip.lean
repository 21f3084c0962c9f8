/-
`scan/clip.rs`: the proxy between the two clipboard endpoints of one session. An offer of files is
fetched under the proxy's own stream ids, every file is scanned, and only then is the offer given
to the receiver, whose requests are answered from the scanned copy. Every function below is the
source function of the same name on explicit state: what it writes, reports and starts is
collected in the state and taken out after each input.
-/
import WebAccess.Scan.Route
import WebAccess.Wire.FileList

namespace WebAccess.Scan

open Codec Wire

/-! ## Constants -/

/-- `FILE_LIST`, the registered format that lists files -/
def fileListName : Text :=
  ['F', 'i', 'l', 'e', 'G', 'r', 'o', 'u', 'p', 'D', 'e', 's', 'c', 'r', 'i', 'p', 't', 'o', 'r', 'W']

/-- `RANGE`: bytes asked for in one file contents request -/
def range : Nat := 2 ^ 20

/-- `ANSWER`, in seconds -/
def answerTime : Nat := 30

def firstStream : Nat := 0x5741_0000

/-! ## Data -/

/-- The two ends of the relayed connection. -/
inductive Side
  | client
  | server
  deriving DecidableEq

def Side.other : Side → Side
  | .client => .server
  | .server => .client

/-- Files go from the client to the server, or back. -/
inductive Dir
  | upload
  | download
  deriving DecidableEq

/-- The end the data of a direction comes from. -/
def Dir.sender : Dir → Side
  | .upload => .client
  | .download => .server

/-- The end the data of a direction goes to. -/
def Dir.receiver (d : Dir) : Side := d.sender.other

/-- The direction an end's own data travels. -/
def Side.sending : Side → Dir
  | .client => .upload
  | .server => .download

def Side.receiving : Side → Dir
  | .client => .download
  | .server => .upload

inductive Verdict
  | clean
  | detected
  | unavailable (why : String)

inductive Report
  | started (dir : Dir) (files : List (Text × Nat))
  | passed (dir : Dir) (files : List (Text × Nat))
  | refused (dir : Dir) (files : List (Text × Nat)) (reason : String)

/-- `Staging`: bytes held for scanning across every session, and the most there may be -/
structure Staging where
  held : Nat
  max : Nat

/-- `Staging::reserve`; the bytes of the reservation are kept by its holder. -/
def Staging.reserve (s : Staging) (bytes : Nat) : Option Staging :=
  if s.held + bytes < 2 ^ 64 ∧ s.held + bytes ≤ s.max then some { s with held := s.held + bytes } else none

/-- Dropping a `Reservation`: `fetch_sub` on a 64-bit counter -/
def Staging.release (s : Staging) : Option Nat → Staging
  | none => s
  | some bytes => { s with held := (s.held + 2 ^ 64 - bytes) % 2 ^ 64 }

/-- A scan job: what `fetch_next` spawns for one file of an offer. -/
structure Job where
  dir : Dir
  generation : Nat
  index : Nat
  name : Text
  bytes : Bytes
  deriving DecidableEq

/-- What the context and the clock say while one input is handled, and the router's state then. -/
structure Env where
  now : Nat
  healthy : Except String Unit
  maxFileBytes : Option Nat
  scanTimeout : Nat
  route : Route

/-- `Input`; a `Scanned` input is what a job sends back. -/
inductive Input
  | fromClient (whole : Whole)
  | fromServer (whole : Whole)
  | scanned (dir : Dir) (generation index : Nat) (verdict : Verdict)

/-- What the proxy writes at once: a PDU of its own, in the units it is framed in, or the units a
PDU arrived in. -/
inductive Body
  | own (pdu : ClipboardPdu) (units : List Bytes)
  | passed (whole : Whole)

/-- The PDU a body is, if it is one. -/
def Body.pdu : Body → Option ClipboardPdu
  | .own pdu _ => some pdu
  | .passed whole => ClipboardPdu.ofBytes whole.pdu

/-- Something for one side, in the order produced. -/
structure Emission where
  side : Side
  body : Body

/-- `Owner`: who a request sent to a sender was for -/
inductive Owner
  | receiver
  | proxy
  deriving DecidableEq

structure Contents where
  descriptor : Bytes
  files : List FileDescriptor
  data : List Bytes
  index : Nat
  stream : Nat

structure Scanning where
  descriptor : Bytes
  files : List FileDescriptor
  data : List Bytes
  verdicts : List (Option Verdict)

/-- What a fetch waits for: the file list, the contents, or the verdicts. -/
inductive Step
  | descriptor
  | contents (c : Contents)
  | scanning (s : Scanning)

/-- `Fetch`; a reservation is the bytes it holds. Of the sender's Format List the source keeps the
units; the PDU they carried stands beside them here. -/
structure Fetch where
  generation : Nat
  list : Whole
  fileList : Nat
  step : Step
  deadline : Nat
  reservation : Option Nat

structure Offer where
  fileList : Nat
  descriptor : Bytes
  data : List Bytes
  reservation : Option Nat

inductive Phase
  | idle
  | fetching (f : Fetch)
  | offered (o : Offer)

/-- What a phase holds in the staging pool. -/
def Phase.reservation : Phase → Option Nat
  | .idle => none
  | .fetching f => f.reservation
  | .offered o => o.reservation

/-- `Direction`: oldest owed answer first -/
structure Direction where
  phase : Phase := .idle
  dataOwed : List Owner := []
  listsOwed : List Owner := []

/-- `Clip`. The generation is a 64-bit counter of the offers of one session, which no session
exhausts; the stream counter is 32 bits wide and wraps. `out`, `reports` and `jobs` collect what
handling one input wrote, reported and started. -/
structure Clip where
  up : Direction := {}
  down : Direction := {}
  longNamesServer : Bool := true
  longNamesClient : Bool := true
  generation : Nat := 0
  nextStream : Nat := firstStream
  staging : Staging
  out : List Emission := []
  reports : List Report := []
  jobs : List Job := []

/-- How handling an input ends the session: an error of the router, or a panic. `capacity` is the panic of
`Vec::with_capacity` for 2^63 bytes and more; an allocation that is refused below that, which aborts the
process, is left out. -/
inductive Fail
  | route (e : RouteError)
  | outOfBounds
  | underflow
  | capacity

def filesOf (files : List FileDescriptor) : List (Text × Nat) := files.map fun f => (f.name, f.size)

def fileListFormat (formats : List ClipboardFormat) : Option Nat :=
  (formats.find? fun f => f.name == some fileListName).map ClipboardFormat.id

namespace Clip

/-! ## State access -/

def direction (c : Clip) : Dir → Direction
  | .upload => c.up
  | .download => c.down

/-- Writing through `direction(dir)`. -/
def setDirection (c : Clip) (dir : Dir) (D : Direction) : Clip :=
  match dir with
  | .upload => { c with up := D }
  | .download => { c with down := D }

/-- Assigning a field of the phase in place: nothing is dropped. -/
def putPhase (c : Clip) (dir : Dir) (p : Phase) : Clip :=
  c.setDirection dir { c.direction dir with phase := p }

/-- Assigning `Phase::Idle`: what the old phase held in the pool is released. -/
def dropPhase (c : Clip) (dir : Dir) : Clip :=
  let staging := c.staging.release (c.direction dir).phase.reservation
  { c.putPhase dir .idle with staging }

/-- `data_owed.push_back` -/
def oweData (c : Clip) (dir : Dir) (o : Owner) : Clip :=
  c.setDirection dir { c.direction dir with dataOwed := (c.direction dir).dataOwed ++ [o] }

/-- `lists_owed.push_back` -/
def oweList (c : Clip) (dir : Dir) (o : Owner) : Clip :=
  c.setDirection dir { c.direction dir with listsOwed := (c.direction dir).listsOwed ++ [o] }

/-- `data_owed.pop_front`, the queue after it -/
def popData (c : Clip) (dir : Dir) : Clip :=
  c.setDirection dir { c.direction dir with dataOwed := (c.direction dir).dataOwed.tail }

/-- `lists_owed.pop_front`, the queue after it -/
def popList (c : Clip) (dir : Dir) : Clip :=
  c.setDirection dir { c.direction dir with listsOwed := (c.direction dir).listsOwed.tail }

/-- `ctx.report` -/
def report (c : Clip) (r : Report) : Clip := { c with reports := c.reports ++ [r] }

/-- `out.push` -/
def emit (c : Clip) (side : Side) (body : Body) : Clip := { c with out := c.out ++ [⟨side, body⟩] }

def longNames (c : Clip) : Bool := c.longNamesServer && c.longNamesClient

/-! ## Writing -/

def send (env : Env) (side : Side) (pdu : ClipboardPdu) (c : Clip) : Except Fail Clip :=
  let framed := match side with
    | .client => env.route.toClient pdu
    | .server => env.route.toServer pdu
  match framed with
  | .ok units => .ok (c.emit side (.own pdu units))
  | .error e => .error (.route e)

def sendSender (env : Env) (dir : Dir) (pdu : ClipboardPdu) (c : Clip) : Except Fail Clip :=
  c.send env dir.sender pdu

def sendReceiver (env : Env) (dir : Dir) (pdu : ClipboardPdu) (c : Clip) : Except Fail Clip :=
  c.send env dir.receiver pdu

/-- `pass`: the units a PDU arrived in, passed on to the other side unchanged -/
def pass (c : Clip) (from' : Side) (whole : Whole) : Clip := c.emit from'.other (.passed whole)

/-! ## Refusing -/

/-- `clear_receiver`: the receiver is told the clipboard now holds nothing. -/
def clearReceiver (env : Env) (dir : Dir) (c : Clip) : Except Fail Clip :=
  ((c.dropPhase dir).oweList dir .proxy).sendReceiver env dir (.formatList .newUnicodeEmpty)

def refuseFiles (env : Env) (dir : Dir) (files : List FileDescriptor) (reason : String) (c : Clip) : Except Fail Clip :=
  (c.report (.refused dir (filesOf files) reason)).clearReceiver env dir

/-- The files a refusal names: those of the step, once the descriptor is in. -/
def fetchFiles : Phase → List FileDescriptor
  | .fetching { step := .contents s, .. } => s.files
  | .fetching { step := .scanning s, .. } => s.files
  | _ => []

def refuse (env : Env) (dir : Dir) (reason : String) (c : Clip) : Except Fail Clip :=
  c.refuseFiles env dir (fetchFiles (c.direction dir).phase) reason

/-! ## Requests and answers -/

/-- `format_list`: a new clipboard on the sender's side ends whatever was in progress for the old
one. -/
def formatList (env : Env) (dir : Dir) (list : FormatList) (whole : Whole) (c : Clip) : Except Fail Clip :=
  let c := c.dropPhase dir
  match fileListFormat ((list.getFormats c.longNames).getD []) with
  | none => .ok ((c.oweList dir .receiver).pass dir.sender whole)
  | some fileList => do
    let c ← c.sendSender env dir (.formatListResponse .ok)
    match env.healthy with
    | .error why =>
      (c.report (.refused dir [] ("the scanner is not answering: " ++ why))).clearReceiver env dir
    | .ok _ =>
      let generation := c.generation + 1
      let c := { c with generation }.putPhase dir (.fetching {
        generation
        list := whole
        fileList
        step := .descriptor
        deadline := env.now + answerTime
        reservation := none })
      (c.oweData dir .proxy).sendSender env dir (.formatDataRequest ⟨fileList⟩)

/-- What `data_request` answers without the sender: the scanned descriptor when the receiver asks
for it, an error while the clipboard is changing. -/
def dataAnswer (p : Phase) (req : FormatDataRequest) : Option FormatDataResponse :=
  match p with
  | .offered o => if o.fileList = req.format then some (.newData o.descriptor) else none
  | .fetching _ => some .newError
  | .idle => none

def dataRequest (env : Env) (dir : Dir) (req : FormatDataRequest) (from' : Side) (whole : Whole) (c : Clip) :
    Except Fail Clip :=
  match dataAnswer (c.direction dir).phase req with
  | some a => c.sendReceiver env dir (.formatDataResponse a)
  | none => .ok ((c.oweData dir .receiver).pass from' whole)

/-- The part of a file a request asks for: its length, or the bytes from `position`. -/
def fileAnswer (req : FileContentsRequest) (file : Bytes) : FileContentsResponse :=
  if hasBits req.flags contentsSize then .newSizeResponse req.streamId file.length
  else
    let start := min req.position file.length
    let stop := min (start + req.requestedSize) file.length
    .newDataResponse req.streamId ((file.take stop).drop start)

def servedFile (p : Phase) (index : Int) : Option Bytes :=
  match p with
  | .offered o => if 0 ≤ index then o.data[index.toNat]? else none
  | _ => none

def contentsAnswer (p : Phase) (req : FileContentsRequest) : FileContentsResponse :=
  ((servedFile p req.index).map (fileAnswer req)).getD (.newError req.streamId)

/-- `contents_request`: contents never come from the sender directly. -/
def contentsRequest (env : Env) (dir : Dir) (req : FileContentsRequest) (c : Clip) : Except Fail Clip :=
  c.sendReceiver env dir (.fileContentsResponse (contentsAnswer (c.direction dir).phase req))

/-! ## Fetching -/

/-- `next_stream`: the id given out is the counter before. -/
def advanceStream (c : Clip) : Clip :=
  { c with nextStream := max ((c.nextStream + 1) % 2 ^ 32) firstStream }

/-- The loop at the head of `fetch_next`, on the files and buffers from the index on: skips the
files whose bytes are all in. A buffer that is missing is an index out of bounds. -/
def skipFull : List FileDescriptor → List Bytes → Nat → Option Nat
  | [], _, i => some i
  | _ :: _, [], _ => none
  | f :: fs, b :: bs, i => if f.size ≤ b.length then skipFull fs bs (i + 1) else some i

/-- The request for the next range of a file of which `held` bytes are in. -/
def rangeRequest (stream index size held : Nat) : FileContentsRequest where
  streamId := stream
  index := if index < 2 ^ 31 then index else 2 ^ 31 - 1
  flags := contentsRange
  position := held
  requestedSize := min (if size - held < 2 ^ 32 then size - held else range) range
  dataId := none

def jobsOf (dir : Dir) (generation : Nat) (files : List FileDescriptor) (data : List Bytes) : List Job :=
  (files.zip data).mapIdx fun index (file, bytes) => ⟨dir, generation, index, file.name, bytes⟩

/-- `fetch_next`: asks for the next range, or starts the scans once every byte is in. -/
def fetchNext (env : Env) (dir : Dir) (c : Clip) : Except Fail Clip :=
  match (c.direction dir).phase with
  | .fetching f =>
    match f.step with
    | .contents s =>
      match skipFull (s.files.drop s.index) (s.data.drop s.index) s.index with
      | none => .error .outOfBounds
      | some index =>
        match s.files[index]?, s.data[index]? with
        | some file, some held =>
          if file.size < held.length then .error .underflow
          else
            let f := { f with step := .contents { s with index }, deadline := env.now + answerTime }
            (c.putPhase dir (.fetching f)).sendSender env dir
              (.fileContentsRequest (rangeRequest s.stream index file.size held.length))
        | some _, none => .error .outOfBounds
        | none, _ =>
          let scanning := ⟨s.descriptor, s.files, s.data, List.replicate s.files.length none⟩
          let f := { f with
            step := .scanning scanning
            deadline := env.now + env.scanTimeout + answerTime }
          .ok { c.putPhase dir (.fetching f) with
            jobs := c.jobs ++ jobsOf dir f.generation s.files s.data }
    | _ => .ok c
  | _ => .ok c

/-- What `descriptor` makes of a response: why the offer is refused, with the files to name, or
the files to fetch. -/
inductive Listing
  | refused (files : List FileDescriptor) (reason : String)
  | accepted (files : List FileDescriptor) (staging : Staging)

/-- The checks of `descriptor`, in their order. The total is a 64-bit sum that wraps. -/
def listing (resp : FormatDataResponse) (limit : Option Nat) (staging : Staging) : Listing :=
  if resp.isError then .refused [] "the sender did not list its files"
  else match resp.toFileList with
    | none => .refused [] "the sender's file list could not be read"
    | some files =>
      if files.isEmpty then .refused [] "the offer holds no files"
      else if files.any fun f => f.relativePath.isSome || f.isDirectory then
        .refused files "folders are not transferred"
      else if files.any fun f => f.fileSize.isNone then .refused files "a file came without its size"
      else if limit.any fun limit => files.any fun f => limit < f.size then
        .refused files "larger than the file-size limit"
      else match staging.reserve ((files.map FileDescriptor.size).sum % 2 ^ 64) with
        | none => .refused files "too much is being scanned at once"
        | some staging => .accepted files staging

/-- `descriptor`: the sender's file list arrived. The buffers are allocated at their declared size,
which a size past what a vector may hold makes a panic. -/
def descriptor (env : Env) (dir : Dir) (resp : FormatDataResponse) (c : Clip) : Except Fail Clip :=
  match (c.direction dir).phase with
  | .fetching f =>
    match f.step with
    | .descriptor =>
      match listing resp env.maxFileBytes c.staging with
      | .refused files reason => c.refuseFiles env dir files reason
      | .accepted files staging =>
        if files.any fun f => 2 ^ 63 ≤ f.size then .error .capacity
        else
          let stream := c.nextStream
          let contents : Contents :=
            { descriptor := resp.data, files, data := files.map fun _ => [], index := 0, stream }
          let f := { f with
            reservation := some ((files.map FileDescriptor.size).sum % 2 ^ 64)
            step := .contents contents }
          let c := (({ c with staging }.report (.started dir (filesOf files))).advanceStream)
          (c.putPhase dir (.fetching f)).fetchNext env dir
    | _ => .ok c
  | _ => .ok c

/-- `contents`: file contents arrived; those the proxy did not ask for go nowhere. -/
def contents (env : Env) (dir : Dir) (resp : FileContentsResponse) (c : Clip) : Except Fail Clip :=
  let fresh := c.nextStream
  let c := c.advanceStream
  match (c.direction dir).phase with
  | .fetching f =>
    match f.step with
    | .contents s =>
      if resp.streamId ≠ s.stream then .ok c
      else if resp.isError then c.refuse env dir "the sender stopped sending a file"
      else match s.files[s.index]?, s.data[s.index]? with
        | some file, some held =>
          if file.size < held.length then .error .underflow
          else if resp.data.isEmpty ∨ min (file.size - held.length) range < resp.data.length then
            c.refuse env dir "the sender sent a file that does not match its size"
          else
            let s := { s with data := s.data.set s.index (held ++ resp.data), stream := fresh }
            (c.putPhase dir (.fetching { f with step := .contents s })).fetchNext env dir
        | _, _ => .error .outOfBounds
    | _ => .ok c
  | _ => .ok c

/-- Why one file keeps its offer from passing. -/
def objection (file : FileDescriptor) : Option Verdict → Option String
  | some .clean => none
  | some .detected => some (String.ofList file.name ++ ": malware detected")
  | some (.unavailable why) => some (String.ofList file.name ++ ": not scanned (" ++ why ++ ")")
  | none => some (String.ofList file.name ++ ": not scanned")

def objections (files : List FileDescriptor) (verdicts : List (Option Verdict)) : List String :=
  (files.zip verdicts).filterMap fun (file, v) => objection file v

/-- `scanned`: a job reports. The last verdict decides the offer. -/
def scanned (env : Env) (dir : Dir) (generation index : Nat) (verdict : Verdict) (c : Clip) : Except Fail Clip :=
  match (c.direction dir).phase with
  | .fetching f =>
    if f.generation ≠ generation then .ok c
    else match f.step with
      | .scanning s =>
        let verdicts := s.verdicts.set index (some verdict)
        let c := c.putPhase dir (.fetching { f with step := .scanning { s with verdicts } })
        if verdicts.any Option.isNone then .ok c
        else
          let refused := objections s.files verdicts
          if refused.isEmpty then
            let c := (c.report (.passed dir (filesOf s.files))).putPhase dir
              (.offered ⟨f.fileList, s.descriptor, s.data, f.reservation⟩)
            .ok ((c.oweList dir .proxy).emit dir.receiver (.passed f.list))
          else c.refuseFiles env dir s.files ("; ".intercalate refused)
      | _ => .ok c
  | _ => .ok c

/-! ## Inputs -/

/-- `take`: a whole PDU from one end. As sender the end speaks about the direction its data
travels, as receiver about the direction it asks about. -/
def take (env : Env) (from' : Side) (whole : Whole) (c : Clip) : Except Fail Clip :=
  match ClipboardPdu.ofBytes whole.pdu with
  | none => .error (.route (.outOfStep .decode))
  | some (.capabilities caps) =>
    let long := hasBits caps.flags useLongFormatNames
    let c := match from' with
      | .client => { c with longNamesClient := long }
      | .server => { c with longNamesServer := long }
    -- Neither side may lock clipboard data: the proxy answers from its own copy.
    let masked := Capabilities.new caps.version (caps.flags &&& (2 ^ 32 - 1 - canLockClipdata))
    c.send env from'.other (.capabilities masked)
  | some (.formatList list) => c.formatList env from'.sending list whole
  | some (.formatListResponse _) =>
    let dir := from'.receiving
    match (c.direction dir).listsOwed with
    | .proxy :: _ => .ok (c.popList dir)
    | _ => .ok ((c.popList dir).pass from' whole)
  | some (.formatDataRequest req) => c.dataRequest env from'.receiving req from' whole
  | some (.formatDataResponse resp) =>
    let dir := from'.sending
    match (c.direction dir).dataOwed with
    | .proxy :: _ => (c.popData dir).descriptor env dir resp
    | _ => .ok ((c.popData dir).pass from' whole)
  | some (.fileContentsRequest req) => c.contentsRequest env from'.receiving req
  | some (.fileContentsResponse resp) => c.contents env from'.sending resp
  | some (.lockData _) | some (.unlockData _) => .ok c
  | some .monitorReady | some (.temporaryDirectory _) => .ok (c.pass from' whole)

def handle (env : Env) (input : Input) (c : Clip) : Except Fail Clip :=
  match input with
  | .fromClient w => c.take env .client w
  | .fromServer w => c.take env .server w
  | .scanned dir generation index verdict => c.scanned env dir generation index verdict

/-- One round of `expire_at` -/
def expireDir (env : Env) (dir : Dir) (c : Clip) : Except Fail Clip :=
  match (c.direction dir).phase with
  | .fetching f =>
    if f.deadline ≤ env.now then c.refuse env dir "the sender or the scanner took too long" else .ok c
  | _ => .ok c

/-- `expire_at` -/
def expire (env : Env) (c : Clip) : Except Fail Clip := do
  let c ← c.expireDir env .upload
  c.expireDir env .download

/-- What the last input wrote, reported and started is taken out. -/
def taken (c : Clip) : Clip := { c with out := [], reports := [], jobs := [] }

end Clip

/-! ## One session's proxy as a machine -/

/-- The clipboard task of one session and the scan jobs it started that have not reported. -/
structure Session where
  clip : Clip
  running : List Job := []

/-- What the clipboard task is woken by: a PDU, the verdict of a job it started, its deadline; or
another session changes the staging pool meanwhile. -/
inductive Event
  | pdu (from' : Side) (whole : Whole)
  | verdict (job : Job) (v : Verdict)
  | deadline
  | staged (held : Nat)

/-- An event and what the context says while it is handled. -/
structure Label where
  env : Env
  event : Event

def Session.handle (s : Session) (l : Label) : Except Fail Clip :=
  let c := s.clip.taken
  match l.event with
  | .pdu from' whole => c.take l.env from' whole
  | .verdict job v => c.scanned l.env job.dir job.generation job.index v
  | .deadline => c.expire l.env
  | .staged held => .ok { c with staging := { c.staging with held } }

/-- The jobs still running after the event, before new ones start: a job reports once. -/
def Session.left (s : Session) : Event → List Job
  | .verdict job _ => s.running.erase job
  | _ => s.running

/-- Only the jobs the proxy started report. -/
def Session.possible (s : Session) : Event → Bool
  | .verdict job _ => decide (job ∈ s.running)
  | _ => true

/-- One round of `run`: `none` when the session ends in it. -/
def Session.step (s : Session) (l : Label) : Option Session :=
  if s.possible l.event then
    match s.handle l with
    | .ok c => some ⟨c, s.left l.event ++ c.jobs⟩
    | .error _ => none
  else none

/-- `Clip::new`: the start of a session, whatever other sessions hold in the pool. -/
def Session.start (staging : Staging) : Session := ⟨{ staging }, []⟩

end WebAccess.Scan
