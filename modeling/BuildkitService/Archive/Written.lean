import BuildkitService.Archive.Wide

/-!
# The bytes that an extraction writes

Every byte that an extraction writes counts against the limit, also one that a later entry of the
same name overwrites.
-/

namespace BuildkitService.Archive

open Strings Files List Prog

def FsOp.bytes : (o : FsOp) → FsRes o → List (Bytes × UInt8)
  | .write path b, .ok () => [(path, b)]
  | _, _ => []

def listed (limit : Nat) : Prog.Rules FsOp FsRes (List (Bytes × UInt8)) where
  sem log o r log' := log' = log ++ FsOp.bytes o r
  guard _ _ := True
  during log := log.length ≤ limit

def Stream.writes (src : Stream) (path : Bytes) : List (Bytes × UInt8) := src.content.map fun b => (path, b)

def allWrites (target : ZipEntry → Option Bytes) (entries : List ZipEntry) : List (Bytes × UInt8) :=
  entries.flatMap fun e => match target e with
    | some path => e.stream.writes path
    | none => []

structure Complete (target : ZipEntry → Option Bytes) (entries : List ZipEntry) (log : List (Bytes × UInt8)) : Prop where
  written : log = allWrites target entries
  ended : ∀ e ∈ entries, target e ≠ none → e.stream.err = none

def Daemon.fileTarget (dst : Bytes) (e : ZipEntry) : Option Bytes := if e.isDir then none else some (Path.join dst e.name)

def Batch.fileTarget (dest : Bytes) (e : ZipEntry) : Option Bytes :=
  match validateBuildArchivePath e.name with
  | .ok cleaned => if cleaned.isEmpty || e.isDir then none else some (Path.clean (Path.join dest cleaned))
  | .error _ => none

variable {limit : Nat} {log : List (Bytes × UInt8)}

/-! ### Calls and copies -/

theorem holds_quiet {o : FsOp} (hquiet : ∀ r, FsOp.bytes o r = []) (hnow : log.length ≤ limit) :
    Holds (listed limit) (op o) log fun _ log' => log' = log := by
  refine ⟨hnow, trivial, ?_⟩
  rintro r log' rfl
  rw [hquiet, append_nil]
  exact ⟨hnow, rfl⟩

theorem holds_mkdirAll (path : Bytes) (hnow : log.length ≤ limit) :
    Holds (listed limit) (mkdirAll path) log fun _ log' => log' = log := holds_quiet (fun _ => rfl) hnow

theorem holds_create (path : Bytes) (hnow : log.length ≤ limit) :
    Holds (listed limit) (create path) log fun _ log' => log' = log := holds_quiet (fun _ => rfl) hnow

theorem holds_close (path : Bytes) (hnow : log.length ≤ limit) :
    Holds (listed limit) (close path) log fun _ log' => log' = log := holds_quiet (fun _ => rfl) hnow

theorem holds_remove (path : Bytes) (hnow : log.length ≤ limit) :
    Holds (listed limit) (remove path) log fun _ log' => log' = log := holds_quiet (fun _ => rfl) hnow

theorem listed_copyBytes (path : Bytes) {content : Bytes} (written : Nat) (hroom : log.length + content.length ≤ limit) :
    Holds (listed limit) (copyBytes path content written) log fun copied log' =>
      copied.2 = none → copied.1 = written + content.length ∧ log' = log ++ content.map fun b => (path, b) := by
  induction content generalizing written log with
  | nil => exact holds_pure hroom fun _ => ⟨rfl, (append_nil log).symm⟩
  | cons b content ih =>
    rw [length_cons] at hroom
    refine holds_op_bind (show log.length ≤ limit by omega) trivial ?_
    rintro r log' rfl
    cases r with
    | ok a =>
      have hlog : (log ++ [(path, b)]).length + content.length ≤ limit := by
        rw [length_append, length_singleton]
        omega
      refine (ih (written + 1) hlog).mono ?_
      intro copied log' _ hpost hnone
      obtain ⟨hcount, hlog'⟩ := hpost hnone
      rw [append_assoc] at hlog'
      refine ⟨?_, hlog'⟩
      rw [hcount, length_cons]
      omega
    | error e =>
      refine holds_pure ?_ nofun
      show (log ++ []).length ≤ limit
      rw [append_nil]
      omega

theorem probe_end {src : Stream} {room : Nat} (hprobe : src.probe room = (false, none)) :
    src.content.length ≤ room ∧ src.err = none := by
  rw [Stream.probe] at hprobe
  by_cases hmore : room < src.content.length
  · rw [if_pos hmore] at hprobe
    exact absurd (Prod.mk.inj hprobe).1 nofun
  · rw [if_neg hmore] at hprobe
    exact ⟨Nat.not_lt.1 hmore, (Prod.mk.inj hprobe).2⟩

theorem listed_copyWithLimit (path : Bytes) (src : Stream) {room : Nat} (hroom : log.length + room ≤ limit) :
    Holds (listed limit) (copyWithLimit path src room) log fun copied log' =>
      copied.2 = (false, none) → src.err = none ∧ copied.1 = src.content.length ∧ log' = log ++ src.writes path := by
  have htake : (src.content.take room).length ≤ room := length_take_le _ _
  refine (listed_copyBytes path 0 (by omega)).bind ?_
  rintro ⟨written, err⟩ log' hcopied hnow
  cases err with
  | some e => exact holds_pure hnow nofun
  | none =>
    obtain ⟨hcount, hlog⟩ := hcopied rfl
    dsimp only at hcount ⊢
    rcases hprobe : src.probe room with ⟨more, probed⟩
    cases probed with
    | some e => exact holds_pure hnow nofun
    | none =>
      refine holds_pure hnow ?_
      intro hend
      rw [(Prod.mk.inj hend).1] at hprobe
      obtain ⟨hfits, hended⟩ := probe_end hprobe
      rw [take_of_length_le hfits] at hcount hlog
      rw [Nat.zero_add] at hcount
      exact ⟨hended, hcount, hlog⟩

theorem length_append_writes (src : Stream) (path : Bytes) :
    (log ++ src.writes path).length = log.length + src.content.length := by
  rw [length_append, Stream.writes, length_map]

/-! ### Files -/

theorem Daemon.listed_extractFile (target : Bytes) (e : ZipEntry) {remaining : Nat} (max : Nat)
    (hroom : log.length + remaining ≤ limit) :
    Holds (listed limit) (Daemon.extractFile target e remaining max) log fun r log' => ∀ written, r = .ok written →
      e.stream.err = none ∧ written = e.stream.content.length ∧ log' = log ++ e.stream.writes target := by
  have hnow : log.length ≤ limit := by omega
  refine (holds_mkdirAll _ hnow).attempt ?_ fun _ _ _ _ => nofun
  rintro _ _ rfl _
  cases e.opened with
  | error err => exact holds_pure hnow nofun
  | ok a =>
    rw [attempt_ok]
    refine (holds_create target hnow).attempt ?_ fun _ _ _ _ => nofun
    rintro _ _ rfl _
    refine (listed_copyWithLimit target e.stream hroom).bind ?_
    rintro ⟨written, exceeded, copyErr⟩ log' hcopied hnow'
    refine (holds_close target hnow').bind ?_
    rintro closed _ rfl _
    cases copyErr with
    | some err => exact holds_pure hnow' nofun
    | none =>
      cases exceeded with
      | true =>
        refine (holds_remove target hnow').bind ?_
        rintro _ _ rfl _
        exact holds_pure hnow' nofun
      | false =>
        cases closed with
        | error err => exact holds_pure hnow' nofun
        | ok a =>
          refine holds_pure hnow' ?_
          intro written' heq
          rw [← Except.ok.inj heq]
          exact hcopied rfl

theorem Batch.listed_extractFile (target : Bytes) (e : ZipEntry) {remaining : Nat} (max : Nat)
    (hroom : log.length + remaining ≤ limit) :
    Holds (listed limit) (Batch.extractFile target e remaining max) log fun r log' => ∀ written, r = .ok written →
      e.stream.err = none ∧ written = e.stream.content.length ∧ log' = log ++ e.stream.writes target := by
  have hnow : log.length ≤ limit := by omega
  refine (holds_mkdirAll _ hnow).attempt ?_ fun _ _ _ _ => nofun
  rintro _ _ rfl _
  refine (holds_create target hnow).attempt ?_ fun _ _ _ _ => nofun
  rintro _ _ rfl _
  cases e.opened with
  | error err => exact holds_pure hnow nofun
  | ok a =>
    rw [attempt_ok]
    refine (listed_copyWithLimit target e.stream hroom).bind ?_
    rintro ⟨written, exceeded, copyErr⟩ log' hcopied hnow'
    cases copyErr with
    | some err => exact holds_pure hnow' nofun
    | none =>
      cases exceeded with
      | true =>
        refine (holds_remove target hnow').bind ?_
        rintro _ _ rfl _
        exact holds_pure hnow' nofun
      | false =>
        refine holds_pure hnow' ?_
        intro written' heq
        rw [← Except.ok.inj heq]
        exact hcopied rfl

/-! ### Archives -/

def Adds (target : ZipEntry → Option Bytes) (entries : List ZipEntry) (log log' : List (Bytes × UInt8)) : Prop :=
  ∃ new, log' = log ++ new ∧ Complete target entries new

variable {target : ZipEntry → Option Bytes} {e : ZipEntry} {entries : List ZipEntry} {log' : List (Bytes × UInt8)}

theorem Adds.nil : Adds target [] log log := ⟨[], (append_nil log).symm, rfl, nofun⟩

theorem Adds.skip (hskip : target e = none) (hrest : Adds target entries log log') :
    Adds target (e :: entries) log log' := by
  obtain ⟨new, hlog, hwritten, hended⟩ := hrest
  refine ⟨new, hlog, ?_, ?_⟩
  · rw [hwritten, allWrites, allWrites, flatMap_cons, hskip]
    rfl
  · refine forall_mem_cons.2 ⟨?_, hended⟩
    intro hfile
    exact absurd hskip hfile

theorem Adds.file {path : Bytes} (hpath : target e = some path) (hended : e.stream.err = none)
    (hrest : Adds target entries (log ++ e.stream.writes path) log') : Adds target (e :: entries) log log' := by
  obtain ⟨new, hlog, hwritten, hrest⟩ := hrest
  refine ⟨e.stream.writes path ++ new, ?_, ?_, ?_⟩
  · rw [hlog, append_assoc]
  · rw [hwritten, allWrites, allWrites, flatMap_cons, hpath]
  · exact forall_mem_cons.2 ⟨fun _ => hended, hrest⟩


theorem Daemon.listed_extractEntries (dst : Bytes) (entries : List ZipEntry) (hnow : log.length ≤ limit) :
    Holds (listed limit) (Daemon.extractEntries dst limit entries log.length) log fun r log' =>
      r = .ok () → Adds (Daemon.fileTarget dst) entries log log' := by
  induction entries generalizing log with
  | nil => exact holds_pure hnow fun _ => .nil
  | cons e entries ih =>
    rw [Daemon.extractEntries]
    cases Daemon.validateBuildArchivePath e.name with
    | error err => exact holds_pure hnow not_ok
    | ok a =>
      rw [attempt_ok]
      dsimp only
      split_ifs with hdir hover
      · have hskip : Daemon.fileTarget dst e = none := if_pos hdir
        refine (holds_mkdirAll _ hnow).attempt ?_ fun _ _ _ _ => not_ok
        rintro _ _ rfl _
        exact (ih hnow).mono fun r log' _ hpost hok => (hpost hok).skip hskip
      · exact holds_pure hnow not_ok
      · have hpath : Daemon.fileTarget dst e = some (Path.join dst e.name) := if_neg hdir
        refine (Daemon.listed_extractFile _ e limit (by omega)).attempt ?_ fun _ _ _ _ => not_ok
        intro written log' hfile hnow'
        obtain ⟨hended, rfl, rfl⟩ := hfile written rfl
        rw [← length_append_writes]
        exact (ih hnow').mono fun r log' _ hpost hok => (hpost hok).file hpath hended

theorem Batch.listed_extractEntries (dest : Bytes) (entries : List ZipEntry) (hnow : log.length ≤ limit) :
    Holds (listed limit) (Batch.extractEntries dest limit entries log.length) log fun r log' =>
      r = .ok () → Adds (Batch.fileTarget dest) entries log log' := by
  induction entries generalizing log with
  | nil => exact holds_pure hnow fun _ => .nil
  | cons e entries ih =>
    rw [Batch.extractEntries]
    cases hclean : Batch.validateBuildArchivePath e.name with
    | error err => exact holds_pure hnow not_ok
    | ok cleaned =>
      have htarget : Batch.fileTarget dest e =
          if cleaned.isEmpty || e.isDir then none else some (Path.clean (Path.join dest cleaned)) := by
        rw [Batch.fileTarget, hclean]
      rw [attempt_ok]
      dsimp only
      split_ifs with hempty hinside hdir hover
      · rw [hempty] at htarget
        exact (ih hnow).mono fun r log' _ hpost hok => (hpost hok).skip htarget
      · exact holds_pure hnow not_ok
      · rw [hdir, Bool.or_true] at htarget
        refine (holds_mkdirAll _ hnow).attempt ?_ fun _ _ _ _ => not_ok
        rintro _ _ rfl _
        exact (ih hnow).mono fun r log' _ hpost hok => (hpost hok).skip htarget
      · exact holds_pure hnow not_ok
      · rw [Bool.not_eq_true] at hempty hdir
        rw [hempty, hdir] at htarget
        refine (Batch.listed_extractFile _ e limit (by omega)).attempt ?_ fun _ _ _ _ => not_ok
        intro written log' hfile hnow'
        obtain ⟨hended, rfl, rfl⟩ := hfile written rfl
        rw [← length_append_writes]
        exact (ih hnow').mono fun r log' _ hpost hok => (hpost hok).file htarget hended

theorem Adds.complete (hadds : Adds target entries [] log) : Complete target entries log := by
  obtain ⟨new, rfl, hcomplete⟩ := hadds
  exact hcomplete

variable {archive : Except GoError (List ZipEntry)}

theorem Daemon.listed_extractZip (dst : Bytes) (maxArchiveFiles : Nat) :
    Holds (listed limit) (Daemon.extractZip archive dst limit maxArchiveFiles) [] fun r log =>
      r = .ok () → ∃ entries, archive = .ok entries ∧ Complete (Daemon.fileTarget dst) entries log := by
  cases archive with
  | error err => exact holds_pure (Nat.zero_le _) not_ok
  | ok entries =>
    rw [Daemon.extractZip]
    split_ifs
    · exact holds_pure (Nat.zero_le _) not_ok
    · refine (Daemon.listed_extractEntries dst entries (show ([] : List _).length ≤ limit from Nat.zero_le _)).mono ?_
      intro r log _ hpost hok
      exact ⟨entries, rfl, (hpost hok).complete⟩

theorem Batch.listed_extractZip (dest : Bytes) (maxArchiveFiles : Nat) :
    Holds (listed limit) (Batch.extractZip archive dest limit maxArchiveFiles) [] fun r log =>
      r = .ok () → ∃ entries, archive = .ok entries ∧ Complete (Batch.fileTarget dest) entries log := by
  cases archive with
  | error err => exact holds_pure (Nat.zero_le _) not_ok
  | ok entries =>
    rw [Batch.extractZip]
    cases Batch.validateDaemonArchiveLimits entries limit maxArchiveFiles with
    | error err => exact holds_pure (Nat.zero_le _) not_ok
    | ok a =>
      refine (Batch.listed_extractEntries dest entries (show ([] : List _).length ≤ limit from Nat.zero_le _)).mono ?_
      intro r log _ hpost hok
      exact ⟨entries, rfl, (hpost hok).complete⟩

def Budgeted (limit : Int64) (target : ZipEntry → Option Bytes) (archive : Except GoError (List ZipEntry))
    (p : Wide.WideProg (Except GoError Unit)) : Prop :=
  Holds (Words.noWrap (listed limit.toNatClampNeg)) p [] fun r log =>
    r = .ok () → ∃ entries, archive = .ok entries ∧ Complete target entries log

theorem budgeted_error (max : Int64) (err : GoError) : Budgeted max target archive (pure (.error err)) :=
  holds_pure (Nat.zero_le _) nofun

/-- An extraction writes no more bytes than the limit. -/
theorem extraction_within_limit (archive : Except GoError (List ZipEntry)) (dst : Bytes)
    {maxExtractedBytes : Int64} (maxArchiveFiles : Int64) (hpositive : 0 < maxExtractedBytes) :
    Budgeted maxExtractedBytes (Daemon.fileTarget dst) archive
        (Wide.Daemon.extractZip archive dst maxExtractedBytes maxArchiveFiles) ∧
      Budgeted maxExtractedBytes (Batch.fileTarget dst) archive
        (Wide.Batch.extractZip archive dst maxExtractedBytes maxArchiveFiles) := by
  have hlimit := maxExtractedBytes.toNatClampNeg_lt
  have hmax : Int64.ofNat maxExtractedBytes.toNatClampNeg = maxExtractedBytes :=
    Int64.ofNat_toNatClampNeg _ (Int64.le_of_lt hpositive)
  by_cases hfiles : 0 ≤ maxArchiveFiles
  · have hbound := maxArchiveFiles.toNatClampNeg_lt
    have hcount := Int64.ofNat_toNatClampNeg _ hfiles
    have hdaemon := Wide.Daemon.extractZip_eq archive dst hlimit hbound
    have hbatch := Wide.Batch.extractZip_eq archive dst hlimit hbound
    rw [hmax, hcount] at hdaemon hbatch
    rw [hdaemon, hbatch]
    exact ⟨Words.holds_lift (Daemon.listed_extractZip dst _), Words.holds_lift (Batch.listed_extractZip dst _)⟩
  · -- A negative number of entries is exceeded by every archive.
    cases archive with
    | error err => exact ⟨budgeted_error _ _, budgeted_error _ _⟩
    | ok entries =>
      have hmany : maxArchiveFiles.toInt < entries.length := by
        have hnegative := Int64.lt_iff_toInt_lt.1 (Int64.not_le.1 hfiles)
        have hzero : (0 : Int64).toInt = 0 := rfl
        omega
      rw [Wide.Daemon.extractZip, Wide.Batch.extractZip, Wide.Batch.validateDaemonArchiveLimits, if_pos hmany, if_pos hmany]
      exact ⟨budgeted_error _ _, budgeted_error _ _⟩

def granted : (o : Words.Call FsOp) → List (Bytes × UInt8) → Words.Answer FsRes o × List (Bytes × UInt8)
  | .own (.write path b), log => (.ok (), log ++ [(path, b)])
  | .own (.mkdirAll _), log | .own (.create _), log | .own (.close _), log => (.ok (), log)
  | .own (.remove _), log | .own (.removeAll _), log => ((), log)
  | .own (.stat _), log => (.ok ⟨true, 0⟩, log)
  | .own (.readDir _), log => (.ok [], log)
  | .own (.readFile _), log => (.ok [], log)
  | .wrap, log => ((), log)

def twoEntries : List ZipEntry :=
  [⟨ascii "a", false, 2, .ok (), ⟨ascii "xy", none, false⟩⟩, ⟨ascii "a", false, 0, .ok (), ⟨ascii "z", none, true⟩⟩]

theorem extraction_within_limit_three :
    Budgeted 3 (Daemon.fileTarget (ascii "/d")) (.ok twoEntries) (Wide.Daemon.extractZip (.ok twoEntries) (ascii "/d") 3 2) ∧
      Budgeted 3 (Batch.fileTarget (ascii "/d")) (.ok twoEntries) (Wide.Batch.extractZip (.ok twoEntries) (ascii "/d") 3 2) ∧
      (Prog.run granted (Wide.Daemon.extractZip (.ok twoEntries) (ascii "/d") 3 2) []).2 =
        [(ascii "/d/a", 0x78), (ascii "/d/a", 0x79), (ascii "/d/a", 0x7A)] ∧
      (Prog.run granted (Wide.Daemon.extractZip (.ok twoEntries) (ascii "/d") 3 2) []).1 = .ok () ∧
      (Prog.run granted (Wide.Daemon.extractZip (.ok twoEntries) (ascii "/d") 2 2) []).1 = .error (tooManyBytes 2) ∧
      (Prog.run granted (Wide.Batch.extractZip (.ok twoEntries) (ascii "/d") 3 2) []).1 = .ok () ∧
      (Prog.run granted (Wide.Batch.extractZip (.ok twoEntries) (ascii "/d") 2 2) []).1 = .error (tooManyBytes 2) :=
  have hbudget := extraction_within_limit (.ok twoEntries) (ascii "/d") 2 (show (0 : Int64) < 3 by decide)
  ⟨hbudget.1, hbudget.2, by decide +kernel, by rfl, by rfl, by rfl, by rfl⟩

def dotEntry : ZipEntry := ⟨ascii ".", false, 2, .ok (), ⟨ascii "xy", none, false⟩⟩

def fullDir : ZipEntry := ⟨ascii "a", true, 2, .ok (), ⟨ascii "xy", none, false⟩⟩

theorem skipped_content_not_written :
    Wide.Batch.extractZip (.ok [dotEntry]) (ascii "/d") 3 2 = pure (.ok ()) ∧
      Wide.Daemon.extractZip (.ok [fullDir]) (ascii "/d") 3 2 =
        Prog.attempt (Words.lift (mkdirAll (ascii "/d/a"))) (fun () => pure (.ok ())) ∧
      dotEntry.isDir = false ∧ dotEntry.stream.content = ascii "xy" ∧ fullDir.stream.content = ascii "xy" :=
  ⟨by rfl, by rfl, by rfl, by rfl, by rfl⟩

end BuildkitService.Archive
