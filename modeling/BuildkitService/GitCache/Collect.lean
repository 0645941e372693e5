import BuildkitService.GitCache.Paths
import BuildkitService.Lib.Ledger

/-!
# One collection without requests

`gc_once` and what it calls, on the files and directories below the cache root, when no request runs
and every deletion succeeds.
-/

namespace BuildkitService.GitCache

open Strings List Option Ledger

/-! ### The disk -/

structure File where
  place : Place
  size : Nat
  mtime : Int
  deriving DecidableEq, Repr

structure Dir where
  place : Place
  mtime : Int
  deriving DecidableEq, Repr

structure Disk where
  files : List File
  dirs : List Dir
  deriving DecidableEq, Repr

namespace Disk

variable (d : Disk)

def isDir (p : Place) : Bool := d.dirs.any fun g => g.place == p

def entries : List Place := d.dirs.map Dir.place ++ d.files.map File.place

def mtime (p : Place) : Option Int :=
  ((d.dirs.find? fun g => g.place == p).map Dir.mtime).or ((d.files.find? fun f => f.place == p).map File.mtime)

def filesBelow (p : Place) : List File := d.files.filter fun f => p.isPrefixOf f.place && f.place != p

def dirSizeBytes (p : Place) : Nat := Ledger.total File.size (d.filesBelow p)

def touch (now : Int) (p : Place) (g : Dir) : Dir := if g.place = p then { g with mtime := now } else g

def rmtree (now : Int) (p : Place) : Disk where
  files := d.files.filter fun f => !p.isPrefixOf f.place
  dirs := (d.dirs.filter fun g => !p.isPrefixOf g.place).map (touch now p.dropLast)

def unlink (now : Int) (p : Place) : Disk :=
  if d.files.any fun f => f.place == p then
    ⟨d.files.filter fun f => f.place != p, d.dirs.map (touch now p.dropLast)⟩
  else d

end Disk

/-! ### Collecting -/

def stampPlace (p : Place) : Place := extended p (ascii ".last_fetch")

def locksDir : Place := [ascii ".locks"]

def lockFile (p : Place) : Place := locksDir ++ [lockKey p ++ ascii ".lock"]

def repoExists (d : Disk) (p : Place) : Bool := d.isDir (p ++ [ascii "objects"])

def listMirrors (d : Disk) : List (Int × Place) :=
  (d.entries.filter fun p => isMirror p && repoExists d p).filterMap fun p =>
    (((d.mtime (stampPlace p)).or (d.mtime p))).map fun time => (time, p)

def openLock (now : Int) (d : Disk) (p : Place) : Disk :=
  if d.files.any fun f => f.place == lockFile p then
    { d with files := d.files.map fun f => if f.place = lockFile p then { f with size := 0, mtime := now } else f }
  else
    { files := d.files ++ [⟨lockFile p, 0, now⟩]
      dirs := if d.isDir locksDir then d.dirs.map (Disk.touch now locksDir) else d.dirs ++ [⟨locksDir, now⟩] }

def evictMirror (now : Int) (d : Disk) (p : Place) : Disk × Nat :=
  if p.length < 2 then (d, 0)
  else
    let d := openLock now d p
    if repoExists d p then ((d.rmtree now p).unlink now (stampPlace p), d.dirSizeBytes p) else (d, 0)

def newest (d : Disk) (p : Place) : Option Int :=
  match (d.filesBelow p).map File.mtime with
  | [] => d.mtime p
  | time :: times => some (times.foldl max time)

def gcStaleTmp (now cutoff : Int) (d : Disk) : Disk :=
  (d.entries.filter isStaleTmp).foldl
    (fun d p => if d.isDir p && (newest d p).any fun time => time < cutoff then d.rmtree now p else d) d

structure GcConfig where
  maxDiskBytes : Int
  target : Int
  gitTimeout : Int
  deriving DecidableEq, Repr

def evictLoop (now target total : Int) : List Place → Disk → Int → Disk × Int × List Place
  | [], d, freed => (d, freed, [])
  | p :: rest, d, freed =>
      if total - freed ≤ target then (d, freed, [])
      else
        let (d', size) := evictMirror now d p
        let (last, freed', evicted) := evictLoop now target total rest d' (freed + size)
        (last, freed', p :: evicted)

def sortMirrors (mirrors : List (Int × Place)) : List (Int × Place) := mirrors.insertionSort fun a b => a.1 ≤ b.1

def gcOnce (cfg : GcConfig) (now : Int) (d : Disk) : Disk × List Place :=
  if cfg.maxDiskBytes ≤ 0 then (d, [])
  else
    let d := gcStaleTmp now (now - cfg.gitTimeout) d
    let total := d.dirSizeBytes []
    if total ≤ cfg.maxDiskBytes then (d, [])
    else
      let (d', _, evicted) := evictLoop now cfg.target total ((sortMirrors (listMirrors d)).map Prod.snd) d 0
      (d', evicted)

/-! ### A cache -/

def usage (d : Disk) : Nat := Ledger.total File.size d.files

def isStamp (p : Place) : Bool := underHost p && hasSuffix (p.getLast?.getD []) (ascii ".git.last_fetch")

structure Sound (d : Disk) : Prop where
  named : ∀ f ∈ d.files, f.place ≠ []
  tree : ∀ f ∈ d.files, ∀ g ∈ d.dirs, ¬ f.place <+: g.place
  lock_dir : ∀ f ∈ d.files, f.place ≠ locksDir
  lock_files : ∀ g ∈ d.dirs, locksDir <+: g.place → g.place = locksDir
  empty : ∀ f ∈ d.files, locksDir <+: f.place ∨ isStamp f.place = true → f.size = 0

structure Cache where
  disk : Disk
  sound : Sound disk

variable {q : Place} {g : Dir}

section Disk

variable {d d' : Disk} {now : Int} {p : Place}

theorem Sound.of_sub (hsound : Sound d)
    (hfiles : ∀ f ∈ d'.files, ∃ f₀ ∈ d.files, f₀.place = f.place ∧ f.size ≤ f₀.size)
    (hdirs : ∀ g ∈ d'.dirs, ∃ g₀ ∈ d.dirs, g₀.place = g.place) : Sound d' := by
  refine ⟨?_, ?_, ?_, ?_, ?_⟩
  · intro f hf
    obtain ⟨f₀, hf₀, hplace, _⟩ := hfiles f hf
    exact hplace ▸ hsound.named f₀ hf₀
  · intro f hf g hg
    obtain ⟨f₀, hf₀, hplace, _⟩ := hfiles f hf
    obtain ⟨g₀, hg₀, hplace'⟩ := hdirs g hg
    rw [← hplace, ← hplace']
    exact hsound.tree f₀ hf₀ g₀ hg₀
  · intro f hf
    obtain ⟨f₀, hf₀, hplace, _⟩ := hfiles f hf
    exact hplace ▸ hsound.lock_dir f₀ hf₀
  · intro g hg hlocks
    obtain ⟨g₀, hg₀, hplace⟩ := hdirs g hg
    rw [← hplace] at hlocks ⊢
    exact hsound.lock_files g₀ hg₀ hlocks
  · intro f hf hspecial
    obtain ⟨f₀, hf₀, hplace, hsize⟩ := hfiles f hf
    rw [← hplace] at hspecial
    exact Nat.le_zero.1 (hsize.trans (hsound.empty f₀ hf₀ hspecial).le)

theorem touch_place (now : Int) (p : Place) (g : Dir) : (Disk.touch now p g).place = g.place := by
  rw [Disk.touch]
  split_ifs
  · rfl
  · rfl

theorem mem_rmtree_dirs (hg : g ∈ (d.rmtree now p).dirs) :
    ∃ g₀ ∈ d.dirs, g₀.place = g.place ∧ ¬ p <+: g.place := by
  obtain ⟨g₀, hg₀, rfl⟩ := List.mem_map.1 hg
  obtain ⟨hmem, hnot⟩ := mem_filter.1 hg₀
  rw [Bool.not_eq_true', ← Bool.not_eq_true, isPrefixOf_iff_prefix] at hnot
  rw [touch_place]
  exact ⟨g₀, hmem, rfl, hnot⟩

theorem mem_unlink_dirs (hg : g ∈ (d.unlink now p).dirs) : ∃ g₀ ∈ d.dirs, g₀.place = g.place := by
  rw [Disk.unlink] at hg
  split_ifs at hg
  · obtain ⟨g₀, hg₀, rfl⟩ := List.mem_map.1 hg
    exact ⟨g₀, hg₀, (touch_place _ _ _).symm⟩
  · exact ⟨g, hg, rfl⟩

theorem mem_unlink_files {f : File} (hf : f ∈ (d.unlink now p).files) : f ∈ d.files := by
  rw [Disk.unlink] at hf
  split_ifs at hf
  · exact (mem_filter.1 hf).1
  · exact hf

theorem Sound.rmtree (hsound : Sound d) (now : Int) (p : Place) : Sound (d.rmtree now p) := by
  refine hsound.of_sub ?_ ?_
  · intro f hf
    exact ⟨f, (mem_filter.1 hf).1, rfl, le_rfl⟩
  · intro g hg
    obtain ⟨g₀, hg₀, hplace, _⟩ := mem_rmtree_dirs hg
    exact ⟨g₀, hg₀, hplace⟩

theorem Sound.unlink (hsound : Sound d) (now : Int) (p : Place) : Sound (d.unlink now p) :=
  hsound.of_sub (fun f hf => ⟨f, mem_unlink_files hf, rfl, le_rfl⟩) fun _ hg => mem_unlink_dirs hg

theorem Sound.gcStaleTmp (hsound : Sound d) (now cutoff : Int) : Sound (gcStaleTmp now cutoff d) := by
  rw [GitCache.gcStaleTmp]
  generalize d.entries.filter isStaleTmp = ps
  induction ps generalizing d with
  | nil => exact hsound
  | cons p ps ih =>
    rw [foldl_cons]
    split_ifs
    · exact ih (hsound.rmtree now p)
    · exact ih hsound

/-! ### What an eviction leaves -/

theorem lockFile_below (p : Place) : locksDir <+: lockFile p := prefix_append _ _

theorem mem_openLock_files {f : File} (hf : f ∈ (openLock now d p).files) :
    (∃ f₀ ∈ d.files, f₀.place = f.place ∧ f.size ≤ f₀.size) ∨ (f.place = lockFile p ∧ f.size = 0) := by
  rw [openLock] at hf
  split at hf
  · obtain ⟨f₀, hf₀, rfl⟩ := List.mem_map.1 hf
    left
    refine ⟨f₀, hf₀, ?_⟩
    split_ifs
    · exact ⟨rfl, Nat.zero_le _⟩
    · exact ⟨rfl, le_rfl⟩
  · rcases mem_append.1 hf with hold | hnew
    · exact .inl ⟨f, hold, rfl, le_rfl⟩
    · rw [mem_singleton.1 hnew]
      exact .inr ⟨rfl, rfl⟩

theorem mem_openLock_dirs (hg : g ∈ (openLock now d p).dirs) :
    (∃ g₀ ∈ d.dirs, g₀.place = g.place) ∨ g.place = locksDir := by
  rw [openLock] at hg
  split_ifs at hg
  · exact .inl ⟨g, hg, rfl⟩
  · obtain ⟨g₀, hg₀, rfl⟩ := List.mem_map.1 hg
    exact .inl ⟨g₀, hg₀, (touch_place _ _ _).symm⟩
  · rcases mem_append.1 hg with hold | hnew
    · exact .inl ⟨g, hold, rfl⟩
    · rw [mem_singleton.1 hnew]
      exact .inr rfl

theorem Sound.openLock (hsound : Sound d) (now : Int) (p : Place) : Sound (openLock now d p) := by
  have hlength : ∀ {q : Place}, lockFile p <+: q → locksDir <+: q ∧ q ≠ locksDir := by
    intro q hq
    refine ⟨(lockFile_below p).trans hq, ?_⟩
    rintro rfl
    have htwo : (lockFile p).length = 2 := rfl
    have hone : locksDir.length = 1 := rfl
    have hle := hq.length_le
    omega
  refine ⟨?_, ?_, ?_, ?_, ?_⟩
  · intro f hf
    rcases mem_openLock_files hf with ⟨f₀, hf₀, hplace, _⟩ | ⟨hplace, _⟩
    · exact hplace ▸ hsound.named f₀ hf₀
    · rw [hplace]
      exact cons_ne_nil _ _
  · intro f hf g hg hpre
    rcases mem_openLock_files hf with ⟨f₀, hf₀, hplace, _⟩ | ⟨hplace, _⟩
    · rcases mem_openLock_dirs hg with ⟨g₀, hg₀, hplace'⟩ | hlocks
      · rw [← hplace, ← hplace'] at hpre
        exact hsound.tree f₀ hf₀ g₀ hg₀ hpre
      · -- a file above `.locks` is the root or `.locks` itself
        rw [← hplace, hlocks, locksDir, prefix_cons_iff] at hpre
        rcases hpre with hnil | ⟨rest, hrest, hpre⟩
        · exact hsound.named f₀ hf₀ hnil
        · rw [prefix_nil] at hpre
          rw [hpre] at hrest
          exact hsound.lock_dir f₀ hf₀ hrest
    · rw [hplace] at hpre
      obtain ⟨hbelow, hne⟩ := hlength hpre
      rcases mem_openLock_dirs hg with ⟨g₀, hg₀, hplace'⟩ | hlocks
      · rw [← hplace'] at hbelow hne
        exact hne (hsound.lock_files g₀ hg₀ hbelow)
      · exact hne hlocks
  · intro f hf
    rcases mem_openLock_files hf with ⟨f₀, hf₀, hplace, _⟩ | ⟨hplace, _⟩
    · exact hplace ▸ hsound.lock_dir f₀ hf₀
    · rw [hplace]
      exact (hlength prefix_rfl).2
  · intro g hg hlocks
    rcases mem_openLock_dirs hg with ⟨g₀, hg₀, hplace⟩ | hplace
    · rw [← hplace] at hlocks ⊢
      exact hsound.lock_files g₀ hg₀ hlocks
    · exact hplace
  · intro f hf hspecial
    rcases mem_openLock_files hf with ⟨f₀, hf₀, hplace, hsize⟩ | ⟨_, hsize⟩
    · rw [← hplace] at hspecial
      exact Nat.le_zero.1 (hsize.trans (hsound.empty f₀ hf₀ hspecial).le)
    · exact hsize

theorem usage_openLock (hsound : Sound d) (now : Int) (p : Place) : usage (openLock now d p) = usage d := by
  rw [usage, usage, GitCache.openLock]
  split
  · dsimp only
    rw [total_map]
    refine total_congr _ ?_
    intro f hf
    split_ifs with hplace
    · exact (hsound.empty f hf (.inl (hplace ▸ lockFile_below p))).symm
    · rfl
  · exact (total_append _ _ _).trans (Nat.add_zero _)

theorem usage_rmtree (hsound : Sound d) (hexists : repoExists d p = true) (now : Int) :
    usage (d.rmtree now p) + d.dirSizeBytes p = usage d := by
  obtain ⟨g, hg, hplace⟩ := List.any_eq_true.1 hexists
  -- the mirror itself is a directory, so all that is removed is below it
  have hbelow : d.filesBelow p = d.files.filter fun f => p.isPrefixOf f.place := by
    refine filter_congr ?_
    intro f hf
    have hne : f.place ≠ p := by
      intro heq
      refine hsound.tree f hf g hg ?_
      rw [heq, beq_iff_eq.1 hplace]
      exact prefix_append p _
    rw [bne_iff_ne.2 hne, Bool.and_true]
  rw [usage, usage, Disk.dirSizeBytes, hbelow, Disk.rmtree, Nat.add_comm]
  exact total_filter _ _ _

theorem usage_unlink (hsound : Sound d) (hstamp : isStamp p = true) (now : Int) : usage (d.unlink now p) = usage d := by
  rw [usage, usage, Disk.unlink]
  split_ifs
  · have hzero : Ledger.total File.size (d.files.filter fun f => !(f.place != p)) = 0 := by
      refine total_eq_zero _ ?_
      intro f hf
      obtain ⟨hmem, hplace⟩ := mem_filter.1 hf
      rw [Bool.not_eq_true', bne_eq_false_iff_eq] at hplace
      exact hsound.empty f hmem (.inr (hplace ▸ hstamp))
    have hsplit := total_filter File.size (fun f => f.place != p) d.files
    rw [hzero, Nat.add_zero] at hsplit
    exact hsplit
  · rfl

theorem isStamp_stampPlace (hmirror : isMirror p = true) : isStamp (stampPlace p) = true := by
  rw [isMirror, Bool.and_eq_true, hasSuffix_iff] at hmirror
  obtain ⟨hhost, stem, hstem⟩ := hmirror
  rw [isStamp, Bool.and_eq_true, hasSuffix_iff]
  constructor
  · match p, hhost with
    | host :: name :: rest, hhost =>
      rw [underHost, Bool.and_eq_true] at hhost ⊢
      rw [stampPlace, extended, dropLast_cons_cons]
      refine ⟨?_, hhost.2⟩
      rw [decide_eq_true_eq, length_append, length_cons, length_singleton]
      omega
  · refine ⟨stem, ?_⟩
    rw [stampPlace, extended, getLast?_concat, getD_some, hstem, append_assoc]
    rfl

theorem evictMirror_spec (hsound : Sound d) (hmirror : isMirror p = true) (now : Int) :
    Sound (evictMirror now d p).1 ∧ usage (evictMirror now d p).1 + (evictMirror now d p).2 = usage d := by
  rw [evictMirror]
  split_ifs with hshort
  · exact ⟨hsound, rfl⟩
  · dsimp only
    have hopened := hsound.openLock now p
    have husage := usage_openLock hsound now p
    split_ifs with hexists
    · have hremoved := usage_rmtree hopened hexists now
      have hunlinked := usage_unlink (hopened.rmtree now p) (isStamp_stampPlace hmirror) now
      refine ⟨(hopened.rmtree now p).unlink now _, ?_⟩
      dsimp only
      omega
    · exact ⟨hopened, husage⟩

theorem mem_evictMirror_dirs (hg : g ∈ (evictMirror now d p).1.dirs) :
    (∃ g₀ ∈ d.dirs, g₀.place = g.place) ∨ g.place = locksDir := by
  rw [evictMirror] at hg
  split_ifs at hg
  · exact .inl ⟨g, hg, rfl⟩
  · dsimp only at hg
    split_ifs at hg
    · obtain ⟨g₁, hg₁, hplace₁⟩ := mem_unlink_dirs hg
      obtain ⟨g₂, hg₂, hplace₂, _⟩ := mem_rmtree_dirs hg₁
      rw [← hplace₁, ← hplace₂]
      exact mem_openLock_dirs hg₂
    · exact mem_openLock_dirs hg

theorem repoExists_iff : repoExists d q = true ↔ ∃ g ∈ d.dirs, g.place = q ++ [ascii "objects"] := by
  rw [repoExists, Disk.isDir, List.any_eq_true]
  simp only [beq_iff_eq]

theorem isMirror_length (hmirror : isMirror p = true) : 2 ≤ p.length := by
  rw [isMirror, underHost, Bool.and_eq_true, Bool.and_eq_true, decide_eq_true_eq] at hmirror
  exact hmirror.1.1

theorem repoExists_evictMirror (hq : isMirror q = true)
    (hexists : repoExists (evictMirror now d p).1 q = true) : repoExists d q = true := by
  obtain ⟨g, hg, hplace⟩ := repoExists_iff.1 hexists
  rcases mem_evictMirror_dirs hg with ⟨g₀, hg₀, hsame⟩ | hlocks
  · exact repoExists_iff.2 ⟨g₀, hg₀, hsame.trans hplace⟩
  · have hlength := congrArg length (hplace.symm.trans hlocks)
    have hone : locksDir.length = 1 := rfl
    have htwo := isMirror_length hq
    rw [length_append, length_singleton, hone] at hlength
    omega

theorem not_repoExists_evicted (hmirror : isMirror p = true) : repoExists (evictMirror now d p).1 p = false := by
  have htwo := isMirror_length hmirror
  rw [evictMirror, if_neg (by omega)]
  dsimp only
  split_ifs with hexists
  · rw [← Bool.not_eq_true, repoExists_iff]
    rintro ⟨g, hg, hplace⟩
    obtain ⟨g₁, hg₁, hplace₁⟩ := mem_unlink_dirs hg
    obtain ⟨_, _, _, hnot⟩ := mem_rmtree_dirs hg₁
    rw [hplace₁, hplace] at hnot
    exact hnot (prefix_append p _)
  · exact Bool.not_eq_true _ ▸ hexists

end Disk

/-! ### The loop -/

def evictAll (now : Int) : List Place → Disk → Int → Disk × Int
  | [], d, freed => (d, freed)
  | p :: rest, d, freed => evictAll now rest (evictMirror now d p).1 (freed + (evictMirror now d p).2)

section Loop

variable {d : Disk} {now target total freed : Int} {ps : List Place}

theorem evictLoop_spec (now target total : Int) (ps : List Place) (d : Disk) (freed : Int) : ∃ n ≤ ps.length,
      evictLoop now target total ps d freed =
        ((evictAll now (ps.take n) d freed).1, (evictAll now (ps.take n) d freed).2, ps.take n) ∧
      (∀ k < n, target < total - (evictAll now (ps.take k) d freed).2) ∧
      (total - (evictAll now (ps.take n) d freed).2 ≤ target ∨ n = ps.length) := by
  induction ps generalizing d freed with
  | nil => exact ⟨0, le_rfl, rfl, fun k hk => absurd hk (Nat.not_lt_zero k), .inr rfl⟩
  | cons p ps ih =>
    rw [evictLoop]
    split_ifs with hreached
    · exact ⟨0, Nat.zero_le _, rfl, fun k hk => absurd hk (Nat.not_lt_zero k), .inl hreached⟩
    · obtain ⟨n, hn, hloop, habove, hend⟩ := ih (evictMirror now d p).1 (freed + (evictMirror now d p).2)
      refine ⟨n + 1, Nat.succ_le_succ hn, ?_, ?_, ?_⟩
      · dsimp only
        rw [hloop]
        rfl
      · intro k hk
        cases k with
        | zero => exact Int.not_le.1 hreached
        | succ k => exact habove k (Nat.lt_of_succ_lt_succ hk)
      · exact hend.imp id (congrArg Nat.succ)

theorem evictAll_spec (hsound : Sound d) (hmirrors : ∀ p ∈ ps, isMirror p = true) (now freed : Int) :
    Sound (evictAll now ps d freed).1 ∧
      (usage (evictAll now ps d freed).1 : Int) + (evictAll now ps d freed).2 = usage d + freed := by
  induction ps generalizing d freed with
  | nil => exact ⟨hsound, rfl⟩
  | cons p ps ih =>
    obtain ⟨hp, hps⟩ := forall_mem_cons.1 hmirrors
    obtain ⟨hnext, husage⟩ := evictMirror_spec hsound hp now
    obtain ⟨hlast, hsum⟩ := ih hnext hps (freed + (evictMirror now d p).2)
    refine ⟨hlast, ?_⟩
    rw [evictAll, hsum]
    omega

theorem repoExists_evictAll (hq : isMirror q = true)
    (hexists : repoExists (evictAll now ps d freed).1 q = true) : repoExists d q = true ∧ q ∉ ps := by
  induction ps generalizing d freed with
  | nil => exact ⟨hexists, not_mem_nil⟩
  | cons p ps ih =>
    obtain ⟨hnext, hnot⟩ := ih hexists
    refine ⟨repoExists_evictMirror hq hnext, ?_⟩
    rw [mem_cons, not_or]
    refine ⟨?_, hnot⟩
    rintro rfl
    rw [not_repoExists_evicted hq] at hnext
    cases hnext

theorem mem_evictAll_dirs (hg : g ∈ (evictAll now ps d freed).1.dirs) :
    (∃ g₀ ∈ d.dirs, g₀.place = g.place) ∨ g.place = locksDir := by
  induction ps generalizing d freed with
  | nil => exact .inl ⟨g, hg, rfl⟩
  | cons p ps ih =>
    rcases ih hg with ⟨g₁, hg₁, hplace⟩ | hlocks
    · rw [← hplace]
      exact mem_evictMirror_dirs hg₁
    · exact .inr hlocks

/-! ### The mirrors -/

theorem mem_listMirrors : q ∈ (listMirrors d).map Prod.snd ↔
    q ∈ d.entries ∧ isMirror q = true ∧ repoExists d q = true ∧ ((d.mtime (stampPlace q)).or (d.mtime q)).isSome = true := by
  rw [listMirrors]
  simp only [List.mem_map, mem_filterMap, mem_filter, Bool.and_eq_true, map_eq_some_iff]
  constructor
  · rintro ⟨_, ⟨p, ⟨hentry, hmirror, hexists⟩, time, htime, rfl⟩, rfl⟩
    exact ⟨hentry, hmirror, hexists, isSome_iff_exists.2 ⟨time, htime⟩⟩
  · rintro ⟨hentry, hmirror, hexists, htime⟩
    obtain ⟨time, htime⟩ := isSome_iff_exists.1 htime
    exact ⟨(time, q), ⟨q, ⟨hentry, hmirror, hexists⟩, time, htime, rfl⟩, rfl⟩

theorem mtime_of_dir (hg : g ∈ d.dirs) : (d.mtime g.place).isSome = true := by
  have hfound : (d.dirs.find? fun g' => g'.place == g.place).isSome = true :=
    find?_isSome.2 ⟨g, hg, beq_self_eq_true _⟩
  rw [Disk.mtime, isSome_or, isSome_map, hfound, Bool.true_or]

theorem listMirrors_nil (hsound : Sound (evictAll now ps d freed).1) (hall : ∀ q ∈ (listMirrors d).map Prod.snd, q ∈ ps) :
    listMirrors (evictAll now ps d freed).1 = [] := by
  rw [← map_eq_nil_iff (f := Prod.snd), eq_nil_iff_forall_not_mem]
  intro q hq
  obtain ⟨hentry, hmirror, hexists, _⟩ := mem_listMirrors.1 hq
  obtain ⟨hbefore, hnot⟩ := repoExists_evictAll hmirror hexists
  obtain ⟨objects, hobjects, hplace⟩ := repoExists_iff.1 hexists
  rcases mem_append.1 hentry with hdir | hfile
  · obtain ⟨g, hg, rfl⟩ := List.mem_map.1 hdir
    rcases mem_evictAll_dirs hg with ⟨g₀, hg₀, hsame⟩ | hlocks
    · refine hnot (hall _ (mem_listMirrors.2 ⟨?_, hmirror, hbefore, ?_⟩))
      · rw [← hsame]
        exact mem_append_left _ (List.mem_map_of_mem hg₀)
      · rw [isSome_or, ← hsame, mtime_of_dir hg₀, Bool.or_true]
    · have htwo := isMirror_length hmirror
      rw [hlocks] at htwo
      exact absurd htwo (by decide)
  · -- a mirror is no file: its objects are below it
    obtain ⟨f, hf, rfl⟩ := List.mem_map.1 hfile
    refine hsound.tree f hf objects hobjects ?_
    rw [hplace]
    exact prefix_append _ _

theorem dirSizeBytes_root (hsound : Sound d) : d.dirSizeBytes [] = usage d := by
  have hall : d.filesBelow [] = d.files := by
    rw [Disk.filesBelow, filter_eq_self]
    intro f hf
    exact bne_iff_ne.2 (hsound.named f hf)
  rw [Disk.dirSizeBytes, hall, usage]

end Loop

def evictFirst (now : Int) (d : Disk) (mirrors : List (Int × Place)) (k : Nat) : Disk × Int :=
  evictAll now ((mirrors.map Prod.snd).take k) d 0

theorem evictFirst_usage {d : Disk} (hsound : Sound d) {mirrors : List (Int × Place)} (hperm : mirrors.Perm (listMirrors d))
    (now : Int) (k : Nat) : Sound (evictFirst now d mirrors k).1 ∧
      (d.dirSizeBytes [] : Int) - (evictFirst now d mirrors k).2 = usage (evictFirst now d mirrors k).1 := by
  have hmirrors : ∀ p ∈ (mirrors.map Prod.snd).take k, isMirror p = true := by
    intro p hp
    exact (mem_listMirrors.1 ((hperm.map Prod.snd).mem_iff.1 (mem_of_mem_take hp))).2.1
  obtain ⟨hlast, hsum⟩ := evictAll_spec hsound hmirrors now 0
  refine ⟨hlast, ?_⟩
  rw [dirSizeBytes_root hsound, evictFirst]
  omega

theorem gcOnce_of_limit {cfg : GcConfig} (hlimit : 0 < cfg.maxDiskBytes) (now : Int) (d : Disk) :
    gcOnce cfg now d =
      if ((gcStaleTmp now (now - cfg.gitTimeout) d).dirSizeBytes [] : Int) ≤ cfg.maxDiskBytes then
        (gcStaleTmp now (now - cfg.gitTimeout) d, [])
      else
        let loop := evictLoop now cfg.target ((gcStaleTmp now (now - cfg.gitTimeout) d).dirSizeBytes [])
          ((sortMirrors (listMirrors (gcStaleTmp now (now - cfg.gitTimeout) d))).map Prod.snd)
          (gcStaleTmp now (now - cfg.gitTimeout) d) 0
        (loop.1, loop.2.2) :=
  if_neg (by omega)

/-- What a collection evicts, and in which order. -/
theorem gc_once_evicts (cfg : GcConfig) (now : Int) (c : Cache) :
    (cfg.maxDiskBytes ≤ 0 → gcOnce cfg now c.disk = (c.disk, [])) ∧
    (0 < cfg.maxDiskBytes → ∃ (d : Disk) (mirrors : List (Int × Place)),
      d = gcStaleTmp now (now - cfg.gitTimeout) c.disk ∧
      mirrors.Perm (listMirrors d) ∧ (mirrors.Pairwise fun a b => a.1 ≤ b.1) ∧
      (usage d ≤ cfg.maxDiskBytes → gcOnce cfg now c.disk = (d, [])) ∧
      (cfg.maxDiskBytes < usage d → ∃ n ≤ mirrors.length,
        gcOnce cfg now c.disk = ((evictFirst now d mirrors n).1, (mirrors.map Prod.snd).take n) ∧
        (∀ k < n, cfg.target < usage (evictFirst now d mirrors k).1) ∧
        (usage (evictFirst now d mirrors n).1 ≤ cfg.target ∨
          (n = mirrors.length ∧ listMirrors (evictFirst now d mirrors n).1 = [])) ∧
        ∀ k ≤ n, (d.dirSizeBytes [] : Int) - (evictFirst now d mirrors k).2 = usage (evictFirst now d mirrors k).1)) := by
  constructor
  · intro hnone
    rw [gcOnce, if_pos hnone]
  · intro hlimit
    have hsound := c.sound.gcStaleTmp now (now - cfg.gitTimeout)
    have hgc := gcOnce_of_limit hlimit now c.disk
    generalize gcStaleTmp now (now - cfg.gitTimeout) c.disk = d at hsound hgc
    have hperm : (sortMirrors (listMirrors d)).Perm (listMirrors d) := List.perm_insertionSort _ _
    have hreal := evictFirst_usage hsound hperm now
    refine ⟨d, sortMirrors (listMirrors d), rfl, hperm, List.pairwise_insertionSort _ _, ?_, ?_⟩
    · intro hbelow
      rw [hgc, dirSizeBytes_root hsound, if_pos hbelow]
    · intro habove
      obtain ⟨n, hn, hloop, hfirst, hend⟩ := evictLoop_spec now cfg.target (d.dirSizeBytes [])
        ((sortMirrors (listMirrors d)).map Prod.snd) d 0
      rw [List.length_map] at hn hend
      refine ⟨n, hn, ?_, ?_, ?_, fun k _ => (hreal k).2⟩
      · rw [hgc, hloop, if_neg (by rw [dirSizeBytes_root hsound]; omega)]
        rfl
      · intro k hk
        rw [← (hreal k).2]
        exact hfirst k hk
      · rcases hend with hreached | rfl
        · left
          rw [← (hreal n).2]
          exact hreached
        · right
          refine ⟨rfl, listMirrors_nil (hreal _).1 ?_⟩
          intro q hq
          rw [← List.length_map (f := Prod.snd), List.take_length]
          exact (hperm.map Prod.snd).mem_iff.2 hq

def sampleDisk : Disk where
  files := [⟨[ascii "h", ascii "a.git", ascii "objects", ascii "pack"], 10, 5⟩,
    ⟨[ascii "h", ascii "a.git", ascii "n.git", ascii "objects", ascii "pack"], 7, 7⟩,
    ⟨[ascii "h", ascii "a.git.last_fetch"], 0, 5⟩, ⟨[ascii "h", ascii "b.git", ascii "objects", ascii "pack"], 20, 9⟩,
    ⟨[ascii "h", ascii "b.git.last_fetch"], 0, 9⟩]
  dirs := [⟨[ascii "h"], 9⟩, ⟨[ascii "h", ascii "b.git"], 9⟩, ⟨[ascii "h", ascii "b.git", ascii "objects"], 9⟩,
    ⟨[ascii "h", ascii "a.git"], 7⟩, ⟨[ascii "h", ascii "a.git", ascii "objects"], 5⟩,
    ⟨[ascii "h", ascii "a.git", ascii "n.git"], 7⟩, ⟨[ascii "h", ascii "a.git", ascii "n.git", ascii "objects"], 7⟩]

def sampleCache : Cache where
  disk := sampleDisk
  sound := ⟨by decide +kernel, by decide +kernel, by decide +kernel, by decide +kernel, by decide +kernel⟩

example : (gcOnce ⟨30, 25, 10⟩ 100 sampleDisk).2 = [[ascii "h", ascii "a.git"]] ∧
    usage (gcOnce ⟨30, 25, 10⟩ 100 sampleDisk).1 = 20 := by decide +kernel

theorem gc_disabled : gcOnce ⟨0, 0, 10⟩ 100 sampleCache.disk = (sampleCache.disk, []) ∧ usage sampleCache.disk = 37 ∧
    (listMirrors sampleCache.disk).length = 3 := by decide +kernel

end BuildkitService.GitCache
