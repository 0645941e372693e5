import BuildkitService.Lib.Runs
import BuildkitService.Lib.Strings
import Mathlib.Data.List.Sort

/-!
# The git cache

`chart/images/git-cache/git-cache-server.py`: a server of bare mirrors, with one thread for each
request and one that removes mirrors when the cache is too large.
-/

namespace BuildkitService.GitCache

open Strings

abbrev Place := List Bytes

def lockKey (p : Place) : Bytes := (ascii "__").intercalate p

def tmpPath (pid : Nat) (p : Place) : Place :=
  p.dropLast ++ [p.getLast?.getD [] ++ ascii ".tmp." ++ decimal pid]

structure Config where
  pid : Nat
  ttl : Bool
  maxClones : Nat
  maxActive : Nat
  maxDiskBytes : Nat
  gcTarget : Nat
  deriving DecidableEq, Repr

/-! ### Threads -/

inductive RequestPc where
  | validate
  | check
  | checkStamp
  | lock
  | lockedCheck
  | lockedStamp (there : Bool)
  | lookTmp
  | removeTmp
  | awaitClone
  | clone
  | cleanup
  | replace
  | refresh
  | touch
  | unlock
  | failed
  | returned
  | serving
  | ended
  deriving DecidableEq, Repr

structure Request where
  repo : Place
  refresh : Bool
  pc : RequestPc
  deriving DecidableEq, Repr

inductive GcPc where
  | idle
  | sweep
  | removeStale (p : Place)
  | evicting (total freed : Nat) (mirrors : List Place)
  | lockedCheck (total freed : Nat) (p : Place) (rest : List Place)
  | remove (total freed size : Nat) (p : Place) (rest : List Place)
  | unlink (total freed size : Nat) (p : Place) (rest : List Place)
  deriving DecidableEq, Repr

structure State where
  objects : List Place
  fresh : List Place
  clones : Nat
  active : Nat
  requests : List Request
  gc : GcPc
  deriving DecidableEq, Repr

def RequestPc.locked : RequestPc → Bool
  | .lockedCheck | .lockedStamp _ | .lookTmp | .removeTmp | .awaitClone | .clone | .cleanup | .replace
  | .refresh | .touch | .unlock | .failed => true
  | _ => false

def GcPc.locked : GcPc → Option Place
  | .lockedCheck _ _ p _ | .remove _ _ _ p _ | .unlink _ _ _ p _ => some p
  | _ => none

def Request.holds (key : Bytes) (t : Request) : Bool := t.pc.locked && lockKey t.repo == key

def GcPc.holds (key : Bytes) (g : GcPc) : Bool := g.locked.any fun p => lockKey p == key

def State.lockFree (s : State) (key : Bytes) : Bool :=
  !s.gc.holds key && s.requests.all fun t => !t.holds key

def State.isFresh (cfg : Config) (s : State) (p : Place) : Bool := cfg.ttl && s.fresh.contains p

/-! ### Steps -/

inductive Choice where
  | go
  | fail
  | found (there : Bool)
  | removed (p : Place)
  | stale (p : Place)
  | scanned (total : Nat) (mirrors : List (Nat × Place))
  | measured (size : Nat)
  deriving DecidableEq, Repr

def goto (s : State) (pc : RequestPc) : Option (State × RequestPc) := some (s, pc)

def request (cfg : Config) (s : State) (t : Request) : RequestPc → Choice → Option (State × RequestPc)
  | .validate, .go => goto s .check
  | .validate, .fail => goto s .ended
  | .check, .go =>
      goto s (if s.objects.contains t.repo then if t.refresh then .checkStamp else .returned else .lock)
  | .checkStamp, .go => goto s (if s.isFresh cfg t.repo then .returned else .lock)
  | .checkStamp, .fail => goto s .ended
  | .lock, .go => if s.lockFree (lockKey t.repo) then goto s .lockedCheck else none
  | .lock, .fail => goto s .ended
  | .lockedCheck, .go => goto s (.lockedStamp (s.objects.contains t.repo))
  | .lockedStamp there, .go =>
      goto s (if !there then .lookTmp else if t.refresh && !s.isFresh cfg t.repo then .refresh else .unlock)
  | .lockedStamp _, .fail => goto s .failed
  | .lookTmp, .found there => goto s (if there then .removeTmp else .awaitClone)
  | .removeTmp, .removed p =>
      if tmpPath cfg.pid t.repo <+: p then some ({ s with objects := s.objects.erase p }, .removeTmp) else none
  | .removeTmp, .go => goto s .awaitClone
  | .removeTmp, .fail => goto s .failed
  | .awaitClone, .go =>
      if s.clones < cfg.maxClones then some ({ s with clones := s.clones + 1 }, .clone) else none
  | .clone, .go => some ({ s with clones := s.clones - 1 }, .replace)
  | .clone, .fail => some ({ s with clones := s.clones - 1 }, .cleanup)
  | .cleanup, .removed p =>
      if tmpPath cfg.pid t.repo <+: p then some ({ s with objects := s.objects.erase p }, .cleanup) else none
  | .cleanup, .go => goto s .failed
  | .replace, .go =>
      if s.objects.contains t.repo then none
      else some ({ s with objects := t.repo :: s.objects }, .touch)
  | .replace, .fail => goto s .failed
  | .refresh, .go => goto s .touch
  | .refresh, .fail => goto s .failed
  | .touch, .go => some ({ s with fresh := t.repo :: s.fresh.erase t.repo }, .unlock)
  | .touch, .fail => goto s .failed
  | .unlock, .go => goto s .returned
  | .failed, .go => goto s .ended
  | .returned, .go =>
      if s.active < cfg.maxActive then some ({ s with active := s.active + 1 }, .serving) else none
  | .returned, .fail => goto s .ended
  | .serving, .go => some ({ s with active := s.active - 1 }, .ended)
  | _, _ => none

def underHost (p : Place) : Bool := decide (2 ≤ p.length) && p.head? != some (ascii ".locks")

def isStaleTmp (p : Place) : Bool := underHost p && contains (p.getLast?.getD []) (ascii ".git.tmp.")

def isMirror (p : Place) : Bool := underHost p && hasSuffix (p.getLast?.getD []) (ascii ".git")

def byTime (mirrors : List (Nat × Place)) : List Place :=
  (mirrors.insertionSort fun a b => a.1 ≤ b.1).map Prod.snd

def gcStep (cfg : Config) (s : State) : GcPc → Choice → Option State
  | .idle, .go => if cfg.maxDiskBytes = 0 then none else some { s with gc := .sweep }
  | .sweep, .stale p => if isStaleTmp p then some { s with gc := .removeStale p } else none
  | .removeStale p, .removed q =>
      if p <+: q then some { s with objects := s.objects.erase q } else none
  | .removeStale _, .go => some { s with gc := .sweep }
  | .sweep, .scanned total mirrors =>
      if total ≤ cfg.maxDiskBytes then some { s with gc := .idle }
      else if mirrors.all fun m => isMirror m.2 then some { s with gc := .evicting total 0 (byTime mirrors) }
      else none
  | .evicting _ _ [], .go => some { s with gc := .idle }
  | .evicting total freed (p :: rest), .go =>
      if total ≤ cfg.gcTarget + freed then some { s with gc := .idle }
      else if s.lockFree (lockKey p) then some { s with gc := .lockedCheck total freed p rest }
      else some { s with gc := .evicting total freed rest }
  | .evicting _ _ _, .fail => some { s with gc := .idle }
  | .lockedCheck total freed p rest, .measured size =>
      if s.objects.contains p then some { s with gc := .remove total freed size p rest }
      else some { s with gc := .evicting total freed rest }
  | .remove total freed size p rest, .removed q =>
      if p <+: q then some { s with objects := s.objects.erase q, gc := .remove total freed size p rest }
      else none
  | .remove total freed size p rest, .go => some { s with gc := .unlink total freed size p rest }
  | .unlink total freed size p rest, .go =>
      some { s with fresh := s.fresh.erase p, gc := .evicting total (freed + size) rest }
  | _, _ => none

inductive Action where
  | arrive (repo : Place) (refresh : Bool)
  | expire (p : Place)
  | request (i : Nat) (choice : Choice)
  | gc (choice : Choice)
  deriving DecidableEq, Repr

def step (cfg : Config) (s : State) : Action → Option State
  | .arrive repo refresh => some { s with requests := s.requests ++ [⟨repo, refresh, .validate⟩] }
  | .expire p => some { s with fresh := s.fresh.erase p }
  | .request i choice =>
      match s.requests[i]? with
      | some t => (request cfg s t t.pc choice).map fun (s', pc) =>
          { s' with requests := s.requests.set i { t with pc := pc } }
      | none => none
  | .gc choice => gcStep cfg s s.gc choice

def start (objects fresh : List Place) : State := ⟨objects, fresh, 0, 0, [], .idle⟩

end BuildkitService.GitCache
