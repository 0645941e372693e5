import BuildkitService.Daemon.Request

/-!
# The create handler

`handleCreateBuild` of `internal/builddaemon/build_request.go` as a program: its calls on the
admission lock, the task store, the scheduler, contexts and files are operations whose answers are
not part of it.
-/

namespace BuildkitService.Daemon

open Strings Files Archive
open Prog (attempt)

/-! ### Operations -/

structure NewTask where
  id : Bytes
  spec : TaskSpec
  logPath : Bytes
  routingDigest : Bytes
  ctx : Nat
  deriving DecidableEq, Repr

structure WalkEntry where
  rel : Bytes
  err : Option GoError
  isDir : Bool
  /-- Whether the entry is a regular file, and its size. -/
  info : Except GoError (Bool × Nat)

inductive Visit where
  | sizes
  | files
  deriving DecidableEq, Repr

inductive HashStage where
  | opening
  | hashing
  | closing
  deriving DecidableEq, Repr

inductive ServerOp where
  | lockAdmission
  | unlockAdmission
  | storeLen
  | storeAdd (task : NewTask)
  /-- `store.delete`, with the task that was there. -/
  | storeDelete (id : Bytes)
  | finishTask (id : Bytes) (status : BuildStatus) (err : Bytes)
  | closeDone (id : Bytes)
  | walkDir (visit : Visit) (root : Bytes)
  | parseMultipartForm (maxRequestBytes : Nat)
  /-- Sixteen bytes of `crypto/rand`. -/
  | readRandom
  /-- `WithCancel` or, with a duration, `WithTimeout`; the parent is the request's own context if the
  build is synchronous. -/
  | newContext (sync : Bool) (timeout : Option Int64)
  | cancel (ctx : Nat)
  | enqueue (mode id : Bytes)
  /-- The goroutine of `runBuildTask`. -/
  | runBuildTask (id : Bytes)
  | openZip (path : Bytes)
  | hashFile (path : Bytes)
  | fs (o : FsOp)
  deriving DecidableEq, Repr

def ServerRes : ServerOp → Type
  | .storeLen | .newContext _ _ => Nat
  | .storeDelete _ => Option NewTask
  | .walkDir _ _ => List WalkEntry
  | .parseMultipartForm _ => Except GoError Form
  | .readRandom => Except GoError (Vector UInt8 16)
  | .enqueue _ _ => Except GoError Unit
  | .openZip _ => Except GoError (List ZipEntry)
  | .hashFile _ => Except (HashStage × GoError) Bytes
  | .fs o => FsRes o
  | _ => Unit

abbrev ServerProg := Prog ServerOp ServerRes

def onFiles {α : Type} (p : FsProg α) : ServerProg α := Prog.lift ServerOp.fs (fun _ r => r) p

def lockAdmission : ServerProg Unit := Prog.op ServerOp.lockAdmission

def unlockAdmission : ServerProg Unit := Prog.op ServerOp.unlockAdmission

def storeLen : ServerProg Nat := Prog.op ServerOp.storeLen

def storeAdd (task : NewTask) : ServerProg Unit := Prog.op (ServerOp.storeAdd task)

def storeDelete (id : Bytes) : ServerProg (Option NewTask) := Prog.op (ServerOp.storeDelete id)

def finishTask (id : Bytes) (status : BuildStatus) (err : Bytes) : ServerProg Unit :=
  Prog.op (ServerOp.finishTask id status err)

def closeDone (id : Bytes) : ServerProg Unit := Prog.op (ServerOp.closeDone id)

def walkDir (visit : Visit) (root : Bytes) : ServerProg (List WalkEntry) := Prog.op (ServerOp.walkDir visit root)

def parseMultipartForm (maxRequestBytes : Nat) : ServerProg (Except GoError Form) :=
  Prog.op (ServerOp.parseMultipartForm maxRequestBytes)

def readRandom : ServerProg (Except GoError (Vector UInt8 16)) := Prog.op ServerOp.readRandom

def newContext (sync : Bool) (timeout : Option Int64) : ServerProg Nat := Prog.op (ServerOp.newContext sync timeout)

def cancel (ctx : Nat) : ServerProg Unit := Prog.op (ServerOp.cancel ctx)

def enqueueTask (mode id : Bytes) : ServerProg (Except GoError Unit) := Prog.op (ServerOp.enqueue mode id)

def runBuildTask (id : Bytes) : ServerProg Unit := Prog.op (ServerOp.runBuildTask id)

def openZip (path : Bytes) : ServerProg (Except GoError (List ZipEntry)) := Prog.op (ServerOp.openZip path)

def hashFile (path : Bytes) : ServerProg (Except (HashStage × GoError) Bytes) := Prog.op (ServerOp.hashFile path)

/-! ### Configuration -/

structure CreateConfig where
  workDir : Bytes
  maxRetainedTasks : Int
  maxWorkDirBytes : Int
  maxRequestBytes : Int
  maxExtractedBytes : Int
  maxArchiveFiles : Int
  modes : Option BuildModes
  router : Option RegistryTargetRouter
  /-- There is a scheduler. -/
  scheduler : Bool

def limitOr (configured : Int) (default : Nat) : Nat := if configured ≤ 0 then default else configured.toNat

def CreateConfig.retainedTasks (cfg : CreateConfig) : Nat := limitOr cfg.maxRetainedTasks 100

def CreateConfig.workDirBytes (cfg : CreateConfig) : Nat := limitOr cfg.maxWorkDirBytes (2 ^ 33)

def CreateConfig.requestBytes (cfg : CreateConfig) : Nat := limitOr cfg.maxRequestBytes (2 ^ 29)

def CreateConfig.extractedBytes (cfg : CreateConfig) : Nat := limitOr cfg.maxExtractedBytes (2 ^ 32)

def CreateConfig.archiveFiles (cfg : CreateConfig) : Nat := limitOr cfg.maxArchiveFiles 100000

def defaultBuildRetry : Nat := 3

def defaultRetryInterval : Nat := 10

structure CreateLib where
  routing : RoutingLib
  frontend : Dockerfile.Frontend
  unmarshalTarget : Bytes → Except GoError Bytes

/-! ### The handler -/

def sumSizes : List WalkEntry → Nat → Except GoError Nat
  | [], total => .ok total
  | entry :: entries, total =>
      match entry.err with
      | some err => if err.is = some .notExist then sumSizes entries total else .error err
      | none =>
          if entry.isDir then sumSizes entries total
          else match entry.info with
            | .error err => .error err
            | .ok (_, size) => sumSizes entries (total + size)

def directorySize (root : Bytes) : ServerProg (Except GoError Nat) := do
  let entries ← walkDir .sizes root
  pure (sumSizes entries 0)

def hexEncode (bytes : List UInt8) : Bytes := bytes.flatMap fun b => [hexDigit (b / 16), hexDigit (b % 16)]

def newTaskID : ServerProg (Except GoError Bytes) := do
  match ← readRandom with
  | .error err => pure (.error err)
  | .ok data => pure (.ok (hexEncode data.toList))

structure Refusal where
  status : Nat
  error : Bytes
  deriving DecidableEq, Repr

def orRefuse {α : Type} (taskDir : Bytes) (status : GoError → Nat) (p : ServerProg (Except GoError α)) :
    ServerProg (Except Refusal α) := do
  match ← p with
  | .ok a => pure (.ok a)
  | .error err =>
      let () ← onFiles (removeAll taskDir)
      pure (.error ⟨status err, err.text⟩)

def archiveStatus (other : Nat) (err : GoError) : Nat := if err.is = some .archiveLimit then 413 else other

def checkLimits (cfg : CreateConfig) : ServerProg (Except Refusal Nat) := do
  let count ← storeLen
  if cfg.retainedTasks ≤ count then pure (.error ⟨429, ascii "maximum retained task count reached"⟩)
  else
    match ← directorySize cfg.workDir with
    | .error err => pure (.error ⟨500, err.text⟩)
    | .ok workDirBytes =>
        if cfg.workDirBytes ≤ workDirBytes then pure (.error ⟨507, ascii "work directory byte budget exhausted"⟩)
        else pure (.ok (cfg.workDirBytes - workDirBytes))

structure Parsed where
  form : Form
  imageType : ImageType
  mode : Bytes
  routingEnabled : Bool
  upload : Upload

def readForm (cfg : CreateConfig) (form : Form) : Except Refusal Parsed :=
  match parseImageType (firstNonEmpty [form.formValue (ascii "image_type"), form.formValue (ascii "compression")]) with
  | .error err => .error ⟨400, err⟩
  | .ok imageType =>
      match BuildModes.resolve cfg.modes (form.formValue (ascii "mode")) with
      | .error err => .error ⟨400, err⟩
      | .ok (mode, routingEnabled) =>
          match form.file with
          | none => .error ⟨400, ascii "file is required"⟩
          | some upload => .ok ⟨form, imageType, mode, routingEnabled, upload⟩

def parseRequest (cfg : CreateConfig) (maxRequestBytes : Nat) : ServerProg (Except Refusal Parsed) := do
  match ← parseMultipartForm maxRequestBytes with
  | .error err =>
      if err.is = some .maxBytes then pure (.error ⟨413, ascii "build request exceeds max-request-bytes"⟩)
      else pure (.error ⟨400, ascii "invalid multipart build request"⟩)
  | .ok form => pure (readForm cfg form)

def extractArchive (zipPath dst : Bytes) (maxExtractedBytes maxArchiveFiles : Nat) :
    ServerProg (Except GoError Unit) := do
  let archive ← openZip zipPath
  onFiles (Archive.Daemon.extractZip archive dst maxExtractedBytes maxArchiveFiles)

def HashStage.text (rel : Bytes) : HashStage → Bytes
  | .opening => ascii "open source context file " ++ rel ++ ascii ": "
  | .hashing => ascii "hash source context file " ++ rel ++ ascii ": "
  | .closing => ascii "close source context file " ++ rel ++ ascii ": "

def hashInput (dir : Bytes) : List Bytes → Bytes → ServerProg (Except GoError Bytes)
  | [], input => pure (.ok input)
  | rel :: rels, input => do
      match ← hashFile (Path.join dir rel) with
      | .error (stage, err) => pure (.error (err.wrap (stage.text rel)))
      | .ok content => hashInput dir rels (input ++ rel ++ [0] ++ content ++ [0])

def contextFiles : List WalkEntry → Except GoError (List Bytes)
  | [] => .ok []
  | entry :: entries =>
      match entry.err with
      | some err => .error err
      | none =>
          if entry.rel.isEmpty || entry.isDir then contextFiles entries
          else match entry.info with
            | .error err => .error err
            | .ok (regular, _) =>
                if regular then (contextFiles entries).map (entry.rel :: ·) else contextFiles entries

def sourceContextContentHash (lib : RoutingLib) (dir : Bytes) : ServerProg (Except GoError Bytes) := do
  let entries ← walkDir .files dir
  match contextFiles entries with
  | .error err => pure (.error (err.wrap (ascii "walk source context for scheduling hash: ")))
  | .ok rels =>
      attempt (hashInput dir (rels.insertionSort fun a b => (!less b a) = true) []) fun input =>
        pure (.ok (ascii "source:" ++ hexEncode (lib.sum256 input).toList))

def routeImage (cfg : CreateConfig) (lib : RoutingLib) (taskDir image digest : Bytes) :
    ServerProg (Except Refusal Bytes) :=
  match cfg.router with
  | none => do
      let () ← onFiles (removeAll taskDir)
      pure (.error ⟨503, ascii "registry routing is not configured"⟩)
  | some router => orRefuse taskDir (fun _ => 400) (pure ((route lib (some router) image digest).mapError errorf))

structure Prepared where
  contextDir : Bytes
  scheduleKey : Bytes
  image : Bytes
  routedTarget : Bytes
  routingDigest : Bytes

def prepareContext (cfg : CreateConfig) (lib : CreateLib) (taskDir contextParentDir : Bytes) (parsed : Parsed) :
    ServerProg (Except Refusal Prepared) :=
  attempt (orRefuse taskDir (fun _ => 400) (onFiles (findBuildContext contextParentDir))) fun contextDir =>
  attempt (orRefuse taskDir (fun _ => 400) (sourceContextContentHash lib.routing contextDir)) fun scheduleKey =>
  attempt (orRefuse taskDir (fun _ => 400)
    (onFiles (preprocessDockerfile lib.frontend (Path.join contextDir (ascii "Dockerfile"))))) fun _ =>
  attempt (orRefuse taskDir (fun _ => 400)
    (onFiles (resolveBuildImage lib.unmarshalTarget contextDir (parsed.form.formValue (ascii "image"))))) fun image =>
    let routingDigest := trimPrefix scheduleKey (ascii "source:")
    if parsed.routingEnabled then
      attempt (routeImage cfg lib.routing taskDir image routingDigest) fun routedTarget =>
        pure (.ok ⟨contextDir, scheduleKey, image, routedTarget, routingDigest⟩)
    else pure (.ok ⟨contextDir, scheduleKey, image, image, routingDigest⟩)

def stageFiles (cfg : CreateConfig) (lib : CreateLib) (taskDir contextParentDir : Bytes) (parsed : Parsed)
    (maxRequestBytes remaining : Nat) : ServerProg (Except Refusal Prepared) :=
  let zipPath := Path.join taskDir (ascii "source.zip")
  attempt (orRefuse taskDir (archiveStatus 500)
    (onFiles (saveUploadedFile parsed.upload zipPath maxRequestBytes))) fun () =>
  attempt (orRefuse taskDir (fun _ => 500) (onFiles (stat zipPath))) fun zipInfo =>
    if remaining ≤ zipInfo.size then do
      let () ← onFiles (removeAll taskDir)
      pure (.error ⟨507, ascii "work directory byte budget exhausted"⟩)
    else
      attempt (orRefuse taskDir (archiveStatus 400)
        (extractArchive zipPath contextParentDir (min cfg.extractedBytes (remaining - zipInfo.size)) cfg.archiveFiles))
        fun () => prepareContext cfg lib taskDir contextParentDir parsed

structure Scheduling where
  ctx : Nat
  retry : Nat
  retryInterval : Int64

def refuseParameter {α : Type} (taskDir : Bytes) (ctx : Nat) (err : Bytes) : ServerProg (Except Refusal α) := do
  let () ← cancel ctx
  let () ← onFiles (removeAll taskDir)
  pure (.error ⟨400, err⟩)

def readRetries (taskDir : Bytes) (form : Form) (ctx : Nat) : ServerProg (Except Refusal Scheduling) :=
  match parseOptionalNonNegativeInt (firstNonEmpty [form.formValue (ascii "retry"), form.queryParam (ascii "retry")])
      (ascii "retry") defaultBuildRetry with
  | .error err => refuseParameter taskDir ctx err
  | .ok retry =>
      match parseOptionalNonNegativeInt
          (firstNonEmpty [form.formValue (ascii "retry-interval"), form.queryParam (ascii "retry-interval")])
          (ascii "retry-interval") defaultRetryInterval with
      | .error err => refuseParameter taskDir ctx err
      | .ok interval => pure (.ok ⟨ctx, retry, seconds interval⟩)

def openContext (taskDir : Bytes) (form : Form) (sync : Bool) : ServerProg (Except Refusal Scheduling) := do
  let ctx ← newContext sync none
  match parseOptionalPositiveInt (form.formValue (ascii "timeout_seconds")) with
  | .error err => refuseParameter taskDir ctx err
  | .ok timeout =>
      if 0 < timeout then do
        let () ← cancel ctx
        let ctx ← newContext sync (some (seconds timeout))
        readRetries taskDir form ctx
      else readRetries taskDir form ctx

def newTask (id taskDir : Bytes) (parsed : Parsed) (prepared : Prepared) (sync : Bool) (scheduling : Scheduling) :
    NewTask where
  id := id
  spec :=
    { image := prepared.image
      mode := parsed.mode
      routedTarget := prepared.routedTarget
      imageType := parsed.imageType
      target := trimSpace (parsed.form.formValue (ascii "target"))
      workDir := taskDir
      contextDir := prepared.contextDir
      scheduleKey := prepared.scheduleKey
      noCache := queryBool (parsed.form.formValue (ascii "no_cache"))
      retry := scheduling.retry
      retryInterval := scheduling.retryInterval
      buildArgs := parseBuildArgs parsed.form
      sync := sync }
  logPath := Path.join taskDir (ascii "build.log")
  routingDigest := prepared.routingDigest
  ctx := scheduling.ctx

def cleanupTask (id : Bytes) : ServerProg Unit := do
  match ← storeDelete id with
  | none => pure ()
  | some task =>
      if (trimSpace task.spec.workDir).isEmpty then pure ()
      else onFiles (removeAll task.spec.workDir)

def publish (cfg : CreateConfig) (task : NewTask) : ServerProg (Except Refusal NewTask) := do
  let () ← storeAdd task
  if cfg.scheduler then
    match ← enqueueTask task.spec.mode task.id with
    | .ok () => pure (.ok task)
    | .error err =>
        let () ← cancel task.ctx
        let () ← finishTask task.id .canceled contextCanceled
        let () ← closeDone task.id
        let () ← cleanupTask task.id
        pure (.error ⟨503, err.text⟩)
  else do
    let () ← runBuildTask task.id
    pure (.ok task)

def createIn (cfg : CreateConfig) (lib : CreateLib) (id taskDir contextParentDir : Bytes) (parsed : Parsed)
    (maxRequestBytes remaining : Nat) : ServerProg (Except Refusal NewTask) :=
  let sync := queryBool
    (firstNonEmpty [parsed.form.formValue (ascii "sync"), parsed.form.queryParam (ascii "sync")])
  attempt (stageFiles cfg lib taskDir contextParentDir parsed maxRequestBytes remaining) fun prepared =>
  attempt (openContext taskDir parsed.form sync) fun scheduling =>
    publish cfg (newTask id taskDir parsed prepared sync scheduling)

def createBuild (cfg : CreateConfig) (lib : CreateLib) : ServerProg (Except Refusal NewTask) :=
  attempt (checkLimits cfg) fun remaining =>
    let maxRequestBytes := min cfg.requestBytes remaining
    attempt (parseRequest cfg maxRequestBytes) fun parsed => do
      match ← newTaskID with
      | .error err => pure (.error ⟨500, err.text⟩)
      | .ok id =>
          let taskDir := Path.join cfg.workDir id
          let contextParentDir := Path.join taskDir (ascii "context")
          match ← onFiles (mkdirAll contextParentDir) with
          | .error err => pure (.error ⟨500, err.text⟩)
          | .ok () => createIn cfg lib id taskDir contextParentDir parsed maxRequestBytes remaining

inductive Answer where
  | refused (status : Nat) (error : Bytes)
  | accepted (task : NewTask)
  deriving DecidableEq, Repr

def Answer.status : Answer → Option Nat
  | .refused status _ => some status
  | .accepted task => if task.spec.sync then none else some 202

def handleCreateBuild (cfg : CreateConfig) (lib : CreateLib) : ServerProg Answer := do
  let () ← lockAdmission
  let created ← createBuild cfg lib
  let () ← unlockAdmission
  match created with
  | .error refusal => pure (.refused refusal.status refusal.error)
  | .ok task => pure (.accepted task)

end BuildkitService.Daemon
