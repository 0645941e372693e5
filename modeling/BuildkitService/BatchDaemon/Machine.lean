import BuildkitService.Lib.Runs
import BuildkitService.Lib.Strings

/-!
# The batch daemon

`internal/buildbatch/daemon.go` and `daemon_handlers.go`.
-/

namespace BuildkitService.BatchDaemon

inductive Status where
  | idle
  | running
  | failed
  | completed
  | error
  | shuttingDown
  deriving DecidableEq, Repr

structure DaemonState where
  status : Status
  error : Bytes
  deriving DecidableEq, Repr

structure Response where
  code : Nat
  body : DaemonState
  deriving DecidableEq, Repr

structure File where
  path : Bytes
  content : Bytes
  deriving DecidableEq, Repr

/-! ### Threads -/

structure Failure where
  error : Bytes
  code : Nat
  removeZip : Bool
  deriving DecidableEq, Repr

inductive BuildPc where
  | createTemp
  | receive
  | dropZip (failure : Failure)
  | queryOptions
  | validate
  | oneshotFlag
  | setOneshot
  | spawn
  | publishFailure (failure : Failure)
  | cancelFailure (failure : Failure)
  | closeFailure (failure : Failure)
  | clearFailure (failure : Failure)
  | removeZipFailure (failure : Failure)
  | respondFailure (failure : Failure)
  | options
  | removeOld
  | extract
  | build
  | publish (state : DaemonState)
  | removeDir
  | removeZip
  | clear
  | closeDone
  | shutdown
  | exited
  deriving DecidableEq, Repr

structure Build where
  pc : BuildPc
  oneshot : Bool
  canceled : Bool
  closes : Nat
  zip : Bool
  tree : Option (List File)
  seen : List File
  response : Option Response
  deriving DecidableEq, Repr

inductive CancelPc where
  | cancel (build : Nat)
  | responded (response : Response)
  deriving DecidableEq, Repr

inductive ServerPc where
  | serving
  | waiting (done : Nat)
  | closing
  | stopped (err : Option Bytes)
  deriving DecidableEq, Repr

structure State where
  build : DaemonState
  buildCancel : Option Nat
  buildDone : Option Nat
  oneshot : Bool
  shutdownClosed : Bool
  ctxDone : Bool
  builds : List Build
  cancels : List CancelPc
  imageDir : Option (List File)
  server : ServerPc
  responses : List Response
  deriving DecidableEq, Repr

def initial : State where
  build := ⟨.idle, []⟩
  buildCancel := none
  buildDone := none
  oneshot := false
  shutdownClosed := false
  ctxDone := false
  builds := []
  cancels := []
  imageDir := none
  server := .serving
  responses := []

/-! ### Shared operations -/

def State.setBuild (s : State) (k : Nat) (b : Build) : State := { s with builds := s.builds.set k b }

def State.setBuildState (s : State) (state : DaemonState) : State := { s with build := state }

def State.clearBuildExecution (s : State) (k : Nat) : State :=
  if s.buildDone = some k then { s with buildDone := none, buildCancel := none } else s

def State.triggerShutdown (s : State) : State := { s with shutdownClosed := true }

def State.completionError (s : State) : Option Bytes :=
  if s.oneshot ∧ s.build.status = .failed then some (ascii "oneshot build failed: " ++ s.build.error) else none

def running : DaemonState := ⟨.running, []⟩

def State.post (s : State) : State :=
  if s.build.status = .running then
    { s with responses := s.responses ++ [⟨409, ⟨.error, ascii "a build is already running"⟩⟩] }
  else { s with
    build := running
    buildCancel := some s.builds.length
    buildDone := some s.builds.length
    builds := s.builds ++ [⟨.createTemp, false, false, 0, false, none, [], none⟩] }

/-! ### The directory -/

def writeFile (dir : Option (List File)) (file : File) : Option (List File) :=
  some ((dir.getD []).filter (fun other => other.path != file.path) ++ [file])

def removeFiles (dir : Option (List File)) (paths : List Bytes) : Option (List File) :=
  dir.map fun files => files.filter fun file => !paths.contains file.path

def State.setImageDir (s : State) (k : Nat) (b : Build) (pc : BuildPc) (dir : Option (List File)) : State :=
  { s with imageDir := dir, builds := s.builds.set k { b with pc := pc, tree := dir } }

/-! ### A build -/

inductive Choice where
  | go
  | ok
  | err (text : Bytes)
  | exceeded
  | archiveLimit (text : Bytes)
  | flag (oneshot : Bool)
  | removed (paths : List Bytes)
  | wrote (file : File)
  | read
  deriving DecidableEq, Repr

def handleBuildPost (s : State) (k : Nat) (b : Build) (choice : Choice) : Option State :=
  match b.pc, choice with
  | .createTemp, .ok => some (s.setBuild k { b with zip := true, pc := .receive })
  | .createTemp, .err text => some (s.setBuild k { b with pc := .publishFailure ⟨text, 500, false⟩ })
  | .receive, .ok => some (s.setBuild k { b with pc := .queryOptions })
  | .receive, .err text =>
      some (s.setBuild k { b with pc := .dropZip ⟨ascii "receive zip: " ++ text, 500, false⟩ })
  | .receive, .exceeded =>
      some (s.setBuild k { b with pc := .dropZip ⟨ascii "compressed upload exceeds 512 MiB", 413, false⟩ })
  | .dropZip failure, .go => some (s.setBuild k { b with zip := false, pc := .publishFailure failure })
  | .queryOptions, .ok => some (s.setBuild k { b with pc := .validate })
  | .queryOptions, .err text => some (s.setBuild k { b with pc := .publishFailure ⟨text, 400, true⟩ })
  | .validate, .ok => some (s.setBuild k { b with pc := .oneshotFlag })
  | .validate, .err text => some (s.setBuild k { b with pc := .publishFailure ⟨text, 400, true⟩ })
  | .validate, .archiveLimit text => some (s.setBuild k { b with pc := .publishFailure ⟨text, 413, true⟩ })
  | .oneshotFlag, .flag oneshot =>
      some (s.setBuild k { b with oneshot := oneshot, pc := if oneshot then .setOneshot else .spawn })
  | .oneshotFlag, .err text => some (s.setBuild k { b with pc := .publishFailure ⟨text, 400, true⟩ })
  | .setOneshot, .go => some ({ s with oneshot := true }.setBuild k { b with pc := .spawn })
  | .spawn, .go => some (s.setBuild k { b with response := some ⟨202, running⟩, pc := .options })
  | .publishFailure failure, .go =>
      some ((s.setBuildState ⟨.failed, failure.error⟩).setBuild k { b with pc := .cancelFailure failure })
  | .cancelFailure failure, .go =>
      some (s.setBuild k { b with canceled := true, pc := .closeFailure failure })
  | .closeFailure failure, .go =>
      some (s.setBuild k { b with closes := b.closes + 1, pc := .clearFailure failure })
  | .clearFailure failure, .go =>
      some ((s.clearBuildExecution k).setBuild k { b with
        pc := if failure.removeZip then .removeZipFailure failure else .respondFailure failure })
  | .removeZipFailure failure, .go => some (s.setBuild k { b with zip := false, pc := .respondFailure failure })
  | .respondFailure failure, .go =>
      some (s.setBuild k { b with response := some ⟨failure.code, s.build⟩, pc := .exited })
  | _, _ => none

def runBuildAsync (s : State) (k : Nat) (b : Build) (choice : Choice) : Option State :=
  match b.pc, choice with
  | .options, .ok => some (s.setBuild k { b with pc := .removeOld })
  | .options, .err text => some (s.setBuild k { b with pc := .publish ⟨.failed, text⟩ })
  | .removeOld, .removed paths => some (s.setImageDir k b .removeOld (removeFiles s.imageDir paths))
  | .removeOld, .ok => some (s.setImageDir k b .extract none)
  | .removeOld, .err _ => some (s.setImageDir k b .extract s.imageDir)
  | .extract, .wrote file => some (s.setImageDir k b .extract (writeFile s.imageDir file))
  | .extract, .removed paths => some (s.setImageDir k b .extract (removeFiles s.imageDir paths))
  | .extract, .ok => some (s.setBuild k { b with pc := .build })
  | .extract, .err text =>
      some (s.setBuild k { b with pc := .publish ⟨.failed, ascii "extract zip: " ++ text⟩ })
  | .build, .read => some (s.setBuild k { b with seen := b.seen ++ s.imageDir.getD [] })
  | .build, .ok => some (s.setBuild k { b with pc := .publish ⟨.completed, []⟩ })
  | .build, .err text => some (s.setBuild k { b with pc := .publish ⟨.failed, text⟩ })
  | .publish state, .go => some ((s.setBuildState state).setBuild k { b with pc := .removeDir })
  | .removeDir, .removed paths => some (s.setImageDir k b .removeDir (removeFiles s.imageDir paths))
  | .removeDir, .ok => some (s.setImageDir k b .removeZip none)
  | .removeDir, .err _ => some (s.setImageDir k b .removeZip s.imageDir)
  | .removeZip, .go => some (s.setBuild k { b with zip := false, pc := .clear })
  | .clear, .go => some ((s.clearBuildExecution k).setBuild k { b with pc := .closeDone })
  | .closeDone, .go =>
      some (s.setBuild k { b with closes := b.closes + 1, pc := if b.oneshot then .shutdown else .exited })
  | .shutdown, .go => some (s.triggerShutdown.setBuild k { b with pc := .exited })
  | _, _ => none

/-! ### The machine -/

inductive Action where
  | post
  | handler (k : Nat) (choice : Choice)
  | async (k : Nat) (choice : Choice)
  | cancel
  | cancelGo (i : Nat)
  | requestShutdown
  | ctxDone
  | server (timeout : Bool)
  deriving DecidableEq, Repr

def State.cancelRequest (s : State) : State :=
  match s.buildCancel with
  | some k =>
      if s.build.status = .running then { s with cancels := s.cancels ++ [.cancel k] }
      else { s with cancels := s.cancels ++ [.responded ⟨200, s.build⟩] }
  | none => { s with cancels := s.cancels ++ [.responded ⟨200, s.build⟩] }

def State.handleShutdown (s : State) : State :=
  { s.triggerShutdown with responses := s.responses ++ [⟨202, ⟨.shuttingDown, []⟩⟩] }

def cancelStep (s : State) (i : Nat) : CancelPc → Option State
  | .cancel k =>
      match s.builds[k]? with
      | some b => some { s.setBuild k { b with canceled := true } with
          cancels := s.cancels.set i (.responded ⟨202, running⟩) }
      | none => none
  | .responded _ => none

def serverStep (s : State) (timeout : Bool) : Option State :=
  match s.server with
  | .serving =>
      if s.ctxDone || s.shutdownClosed then
        match s.buildDone with
        | some k => some { s with server := .waiting k }
        | none => some { s with server := .closing }
      else none
  | .waiting k =>
      match s.builds[k]? with
      | some b => if timeout || 0 < b.closes then some { s with server := .closing } else none
      | none => none
  | .closing => some { s with server := .stopped s.completionError }
  | .stopped _ => none

def step (s : State) (a : Action) : Option State :=
  match s.server with
  | .stopped _ => none
  | _ =>
    match a with
    | .post => some s.post
    | .handler k choice => (s.builds[k]?).bind fun b => handleBuildPost s k b choice
    | .async k choice => (s.builds[k]?).bind fun b => runBuildAsync s k b choice
    | .cancel => some s.cancelRequest
    | .cancelGo i => (s.cancels[i]?).bind (cancelStep s i)
    | .requestShutdown => some s.handleShutdown
    | .ctxDone => some { s with ctxDone := true }
    | .server timeout => serverStep s timeout

end BuildkitService.BatchDaemon
