import BuildkitService.Lib.Runs
import BuildkitService.Daemon.Task

/-!
# The build daemon

All tasks together with the handlers, the mode queues, the refresher of the address pool and the
reaper.
-/

namespace BuildkitService.Daemon

open Strings Pool

/-! ### Handlers -/

inductive HandlerPc where
  | enqueue
  | rejectCancel
  | rejectFinish (f : FinishPc)
  | rejectClose
  | rejectDelete
  | wait
  | cancel
  | cancelCtx (cancels : Bool) (status : BuildStatus)
  | cancelFinish (f : FinishPc)
  | returned
  deriving DecidableEq, Repr

structure Handler where
  id : Nat
  shutdown : Bool
  pc : HandlerPc
  deriving DecidableEq, Repr

structure State where
  shared : Shared
  cells : List Cell
  handlers : List Handler
  queue : List Nat
  closed : List Bytes
  deriving DecidableEq, Repr

inductive Enqueued where
  | started
  | pushed
  | refused
  deriving DecidableEq, Repr

def enqueue (cfg : Config) (closed : List Bytes) (mode : Bytes) : Enqueued :=
  match cfg.modes with
  | none => .started
  | some modes => if (modes.lookup mode).isSome ∧ mode ∉ closed then .pushed else .refused

def Enqueued.pc : Enqueued → TaskPc
  | .started => .get
  | .pushed => .queued
  | .refused => .rejected

def Enqueued.handlerPc (sync : Bool) : Enqueued → HandlerPc
  | .refused => .rejectCancel
  | .started | .pushed => if sync then .wait else .returned

def finishCanceled : FinishPc := .now .canceled [] (some contextCanceled)

def Handler.control (sh : Shared) (c : Cell) (leaves : Bool) (h : Handler) : Option (Op × HandlerPc) :=
  match h.pc with
  | .enqueue => none
  | .rejectCancel => some (.cancelCtx, .rejectFinish finishCanceled)
  | .rejectFinish f =>
      let (op, next) := f.control sh c
      some (op, match next with
        | some f' => .rejectFinish f'
        | none => .rejectClose)
  | .rejectClose => some (.closeChannel, .rejectDelete)
  | .rejectDelete => some (.deleteRecord, .returned)
  | .wait => if c.doneClosed = true ∨ leaves = true then some (.skip, .returned) else none
  | .cancel =>
      if c.stored then
        some (.cancelRecord, .cancelCtx (!c.record.status.terminal) (c.record.cancel sh.clock).status)
      else some (.skip, if h.shutdown then .cancelFinish finishCanceled else .returned)
  | .cancelCtx cancels status =>
      some (if cancels then .cancelCtx else .skip,
        if h.shutdown = true ∨ status = .canceled then .cancelFinish finishCanceled else .returned)
  | .cancelFinish f =>
      let (op, next) := f.control sh c
      some (op, match next with
        | some f' => .cancelFinish f'
        | none => .returned)
  | .returned => none

/-! ### The machine -/

def Record.expired (cfg : Config) (now : Nat) (r : Record) : Bool :=
  match r.finishedAt with
  | none => false
  | some finished => finished + cfg.keepTTL ≤ now

def Cell.reap (cfg : Config) (now : Nat) (c : Cell) : Cell :=
  if c.stored = true ∧ c.record.expired cfg now = true then
    { c with stored := false, removing := true } else c

inductive Action where
  | tick
  | create (spec : TaskSpec)
  | requestCancel (id : Nat)
  | requestShutdown (id : Nat)
  | handler (k : Nat) (leaves : Bool)
  | pop (mode : Bytes)
  | closeQueue (mode : Bytes)
  | task (i : Nat) (choice : Choice)
  | ctxDone (i : Nat) (err : Bytes)
  | reap (now : Nat)
  | removeDir (i : Nat)
  | refreshPool (addrs : List BuildkitAddr)
  deriving Repr

def TaskPc.running : TaskPc → Bool
  | .created | .rejected | .queued | .returned => false
  | _ => true

def State.busy (s : State) (mode : Bytes) : Nat :=
  s.cells.countP fun c => c.spec.mode == mode && c.pc.running

def State.inMode (s : State) (mode : Bytes) (i : Nat) : Bool :=
  match s.cells[i]? with
  | some c => c.spec.mode == mode
  | none => false

def State.perform (cfg : Config) (s : State) (i : Nat) (c : Cell) (op : Op) (pc : TaskPc) : Option State :=
  (op.onShared cfg s.shared).map fun sh =>
    { s with shared := sh, cells := s.cells.set i { op.onCell s.shared c with pc := pc } }

def State.setHandler (s : State) (k : Nat) (h : Handler) : State :=
  { s with handlers := s.handlers.set k h }

def stepHandler (cfg : Config) (s : State) (k : Nat) (h : Handler) (c : Cell) (leaves : Bool) :
    Option State :=
  match h.pc with
  | .enqueue =>
      let outcome : Enqueued := enqueue cfg s.closed c.spec.mode
      (s.perform cfg h.id c .skip outcome.pc).map fun s' =>
        { s' with queue := if outcome = Enqueued.pushed then s.queue ++ [h.id] else s.queue }.setHandler k
          { h with pc := outcome.handlerPc c.spec.sync }
  | _ =>
      match h.control s.shared c leaves with
      | some (op, next) => (s.perform cfg h.id c op c.pc).map fun s' => s'.setHandler k { h with pc := next }
      | none => none

def step (cfg : Config) (s : State) : Action → Option State
  | .tick => some { s with shared := { s.shared with clock := s.shared.clock + 1 } }
  | .create spec =>
      some { s with
        cells := s.cells ++ [.create spec s.shared.clock]
        handlers := s.handlers ++ [⟨s.cells.length, false, .enqueue⟩] }
  | .requestCancel id =>
      match s.cells[id]? with
      | some _ => some { s with handlers := s.handlers ++ [⟨id, false, .cancel⟩] }
      | none => none
  | .requestShutdown id =>
      match s.cells[id]? with
      | some c =>
          if c.stored = true ∧ c.record.status.terminal = false then
            some { s with handlers := s.handlers ++ [⟨id, true, .cancel⟩] } else none
      | none => none
  | .handler k leaves =>
      match s.handlers[k]? with
      | some h =>
          match s.cells[h.id]? with
          | some c => stepHandler cfg s k h c leaves
          | none => none
      | none => none
  | .pop mode =>
      match cfg.modes.bind (List.lookup mode), s.queue.find? (s.inMode mode) with
      | some concurrency, some i =>
          match s.cells[i]? with
          | some c =>
              if s.busy mode < concurrency ∧ mode ∉ s.closed then
                (s.perform cfg i c .skip .get).map fun s' => { s' with queue := s.queue.erase i }
              else none
          | none => none
      | _, _ => none
  | .closeQueue mode =>
      some { s with closed := mode :: s.closed, queue := s.queue.filter fun i => !s.inMode mode i }
  | .task i choice =>
      match s.cells[i]? with
      | some c =>
          match control cfg s.shared c choice with
          | some (op, pc) => s.perform cfg i c op pc
          | none => none
      | none => none
  | .ctxDone i err =>
      match s.cells[i]? with
      | some c =>
          if c.ctx = none then some { s with cells := s.cells.set i { c with ctx := some err } } else none
      | none => none
  | .reap now =>
      if now ≤ s.shared.clock then some { s with cells := s.cells.map (Cell.reap cfg now) } else none
  | .removeDir i =>
      match s.cells[i]? with
      | some c => if c.removing = true then s.perform cfg i c .removeDir c.pc else none
      | none => none
  | .refreshPool addrs => some { s with shared := { s.shared with pool := s.shared.pool.replace addrs } }

def start (addrs : List BuildkitAddr) (addrConcurrency : Nat) : State :=
  ⟨⟨0, newAddrPool addrs addrConcurrency, 0, 0, 0, 0⟩, [], [], [], []⟩

/-! ### A small daemon -/

def sampleConfig : Config where
  maxConcurrency := 1
  keepTTL := 0
  modes := none
  registry := ⟨.ok, .ok, fun name digest => .ok (name ++ ascii "@" ++ digest)⟩

def sampleTask : TaskSpec where
  image := ascii "registry/app:1"
  mode := ascii "default_mode"
  routedTarget := ascii "registry/app:1"
  imageType := .oci
  target := []
  workDir := ascii "/work/0"
  contextDir := ascii "/work/0/context"
  scheduleKey := ascii "registry/app"
  noCache := false
  retry := 1
  retryInterval := 0
  buildArgs := []
  sync := true

def sampleStart : State :=
  start [⟨ascii "10.0.0.1:9094", ascii "tcp://10.0.0.1:9094", ascii "10.0.0.1"⟩] 1

def sampleBuild : List Action :=
  [.create sampleTask, .handler 0 false] ++ List.replicate 9 (.task 0 .go)

end BuildkitService.Daemon
