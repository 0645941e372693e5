import BuildkitService.Archive.Extract
import BuildkitService.Lib.Words

/-!
# Extraction in machine words

`extractZip` of both daemons counts bytes in an `int64`, compares what is left with the declared
size of an entry as a `uint64`, and the batch daemon adds up the declared sizes as `uint64` before
it extracts anything.
-/

namespace BuildkitService.Archive.Wide

open Strings Files Prog
open Words (lift)

abbrev WideProg := Words.Program FsOp FsRes

/-! ### The programs -/

def decimalInt (n : Int) : Bytes := if n < 0 then ascii "-" ++ decimal n.natAbs else decimal n.toNat

def tooManyEntries (count : Nat) (limit : Int64) : GoError :=
  limitError (ascii "archive has " ++ decimal count ++ ascii " entries, maximum is " ++ decimalInt limit.toInt)

def tooManyBytes (limit : Int64) : GoError :=
  limitError (ascii "extracted content exceeds " ++ decimalInt limit.toInt ++ ascii " bytes")

def copyWithLimit (path : Bytes) (src : Stream) (limit : Int64) : WideProg (Int64 × Bool × Option GoError) := do
  let (written, exceeded, err) ← lift (Archive.copyWithLimit path src limit.toNatClampNeg)
  let written ← Words.count written
  pure (written, exceeded, err)

def reserve (limit extracted : Int64) (declared : UInt64) : WideProg (Except GoError Int64) := do
  let remaining ← Words.subInt64 limit extracted
  if remaining < 0 then pure (.error (tooManyBytes limit))
  else do
    let room ← Words.toUInt64 remaining
    if room < declared then pure (.error (tooManyBytes limit)) else pure (.ok remaining)

namespace Daemon

def extractFile (target : Bytes) (e : ZipEntry) (extracted remaining limit : Int64) : WideProg (Except GoError Int64) :=
  attempt (lift (mkdirAll (Path.dir target))) fun () =>
  attempt (pure e.opened) fun () =>
  attempt (lift (create target)) fun () => do
    let (written, exceeded, copyErr) ← copyWithLimit target e.stream remaining
    let closed ← lift (close target)
    match copyErr with
    | some err => pure (.error err)
    | none =>
        if exceeded then do
          let () ← lift (remove target)
          pure (.error (tooManyBytes limit))
        else do
          let extracted ← Words.addInt64 extracted written
          match closed with
          | .error err => pure (.error err)
          | .ok () => pure (.ok extracted)

def extractEntries (dst : Bytes) (limit : Int64) : List ZipEntry → Int64 → WideProg (Except GoError Unit)
  | [], _ => pure (.ok ())
  | e :: entries, extracted =>
      attempt (pure (Archive.Daemon.validateBuildArchivePath e.name)) fun () =>
        let target := Path.join dst e.name
        if e.isDir then attempt (lift (mkdirAll target)) fun () => extractEntries dst limit entries extracted
        else
          attempt (reserve limit extracted e.uncompressedSize64) fun remaining =>
          attempt (extractFile target e extracted remaining limit) fun extracted =>
            extractEntries dst limit entries extracted

def extractZip (archive : Except GoError (List ZipEntry)) (dst : Bytes) (maxExtractedBytes maxArchiveFiles : Int64) :
    WideProg (Except GoError Unit) :=
  match archive with
  | .error err => pure (.error (err.wrap (ascii "open zip: ")))
  | .ok entries =>
      if maxArchiveFiles.toInt < entries.length then pure (.error (tooManyEntries entries.length maxArchiveFiles))
      else extractEntries dst maxExtractedBytes entries 0

end Daemon

namespace Batch

def declaredTotal (limit : Int64) : List ZipEntry → UInt64 → WideProg (Except GoError Unit)
  | [], _ => pure (.ok ())
  | e :: entries, total => do
      let bound ← Words.toUInt64 limit
      let room ← Words.subUInt64 bound total
      if room < e.uncompressedSize64 then pure (.error (tooManyBytes limit))
      else do
        let total ← Words.addUInt64 total e.uncompressedSize64
        declaredTotal limit entries total

def validateDaemonArchiveLimits (entries : List ZipEntry) (maxExtractedBytes maxArchiveFiles : Int64) :
    WideProg (Except GoError Unit) :=
  if maxArchiveFiles.toInt < entries.length then pure (.error (tooManyEntries entries.length maxArchiveFiles))
  else declaredTotal maxExtractedBytes entries 0

def extractFile (target : Bytes) (e : ZipEntry) (extracted remaining limit : Int64) : WideProg (Except GoError Int64) :=
  attempt (lift (mkdirAll (Path.dir target))) fun () =>
  attempt (lift (create target)) fun () =>
  attempt (pure e.opened) fun () => do
    let (written, exceeded, copyErr) ← copyWithLimit target e.stream remaining
    match copyErr with
    | some err => pure (.error err)
    | none =>
        if exceeded then do
          let () ← lift (remove target)
          pure (.error (tooManyBytes limit))
        else do
          let extracted ← Words.addInt64 extracted written
          pure (.ok extracted)

def extractEntries (dest : Bytes) (limit : Int64) : List ZipEntry → Int64 → WideProg (Except GoError Unit)
  | [], _ => pure (.ok ())
  | e :: entries, extracted =>
      attempt (pure (Archive.Batch.validateBuildArchivePath e.name)) fun cleaned =>
        if cleaned.isEmpty then extractEntries dest limit entries extracted
        else
          let target := Path.clean (Path.join dest cleaned)
          if hasPrefix target (Path.clean dest ++ ascii "/") = false then
            pure (.error (errorf (ascii "zip contains invalid path " ++ quote e.name)))
          else if e.isDir then
            attempt (lift (mkdirAll target)) fun () => extractEntries dest limit entries extracted
          else
            attempt (reserve limit extracted e.uncompressedSize64) fun remaining =>
            attempt (extractFile target e extracted remaining limit) fun extracted =>
              extractEntries dest limit entries extracted

def extractZip (archive : Except GoError (List ZipEntry)) (dest : Bytes) (maxExtractedBytes maxArchiveFiles : Int64) :
    WideProg (Except GoError Unit) :=
  match archive with
  | .error err => pure (.error err)
  | .ok entries =>
      attempt (validateDaemonArchiveLimits entries maxExtractedBytes maxArchiveFiles) fun () =>
        extractEntries dest maxExtractedBytes entries 0

end Batch

/-! ### The programs on natural numbers -/

theorem returns_copyBytes (path content : Bytes) (written : Nat) :
    Returns (fun copied => copied.1 ≤ written + content.length) (copyBytes path content written) := by
  induction content generalizing written with
  | nil => exact returns_pure le_rfl
  | cons b content ih =>
    intro r
    cases r with
    | ok a =>
      have hlength : written + (b :: content).length = written + 1 + content.length := by
        rw [List.length_cons]
        omega
      rw [hlength]
      exact ih (written + 1)
    | error e => exact Nat.le_add_right _ _

theorem returns_copyWithLimit (path : Bytes) (src : Stream) (limit : Nat) :
    Returns (fun copied => copied.1 ≤ limit) (Archive.copyWithLimit path src limit) := by
  refine (returns_copyBytes path (src.content.take limit) 0).bind ?_
  rintro ⟨written, err⟩ hwritten
  have hlimit : written ≤ limit := by
    rw [Nat.zero_add] at hwritten
    exact hwritten.trans (List.length_take_le _ _)
  cases err with
  | some e => exact hlimit
  | none =>
    obtain ⟨more, probed⟩ := src.probe limit
    cases probed with
    | some | none => exact hlimit

variable {limit extracted remaining : Nat}

theorem copyWithLimit_eq (path : Bytes) (src : Stream) (hremaining : remaining < 2 ^ 63) :
    copyWithLimit path src (.ofNat remaining) = lift (Archive.copyWithLimit path src remaining) >>=
      fun copied => pure (.ofNat copied.1, copied.2) := by
  have hcopied := Words.returns_lift (returns_copyWithLimit path src remaining)
  rw [copyWithLimit, Int64.toNatClampNeg_ofNat_of_lt hremaining]
  refine hcopied.bind_congr ?_
  rintro ⟨written, exceeded, err⟩ hwritten
  show Words.count written >>= _ = _
  rw [Words.count_eq (hwritten.trans_lt hremaining)]
  rfl

theorem decimalInt_natCast (n : Nat) : decimalInt n = decimal n := if_neg (Int.not_lt.2 (Int.natCast_nonneg n))

theorem tooManyBytes_eq (hlimit : limit < 2 ^ 63) : tooManyBytes (.ofNat limit) = Archive.tooManyBytes limit := by
  rw [tooManyBytes, Int64.toInt_ofNat_of_lt hlimit, decimalInt_natCast]
  rfl

theorem tooManyEntries_eq (count : Nat) (hlimit : limit < 2 ^ 63) :
    tooManyEntries count (.ofNat limit) = Archive.tooManyEntries count limit := by
  rw [tooManyEntries, Int64.toInt_ofNat_of_lt hlimit, decimalInt_natCast]
  rfl

theorem many_iff (entries : List ZipEntry) (hlimit : limit < 2 ^ 63) :
    (Int64.ofNat limit).toInt < entries.length ↔ limit < entries.length := by
  rw [Int64.toInt_ofNat_of_lt hlimit, Int.ofNat_lt]

theorem lt_declared_iff {room : Nat} {declared : UInt64} (hroom : room < 2 ^ 64) :
    UInt64.ofNat room < declared ↔ room < declared.toNat := by
  rw [UInt64.lt_iff_toNat_lt, Words.toNat_ofNat hroom]

theorem reserve_eq (hlimit : limit < 2 ^ 63) (hextracted : extracted ≤ limit) (declared : UInt64) :
    reserve (.ofNat limit) (.ofNat extracted) declared =
      pure (if limit - extracted < declared.toNat then .error (Archive.tooManyBytes limit)
        else .ok (.ofNat (limit - extracted))) := by
  have hroom : limit - extracted < 2 ^ 63 := by omega
  have hnonneg : ¬ Int64.ofNat (limit - extracted) < 0 := by
    rw [Int64.lt_iff_toInt_lt, Int64.toInt_ofNat_of_lt hroom]
    exact Int.not_lt.2 (Int.natCast_nonneg _)
  rw [reserve, Words.subInt64_ofNat hextracted hlimit, tooManyBytes_eq hlimit]
  show (if Int64.ofNat (limit - extracted) < 0 then _ else Words.toUInt64 _ >>= _) = _
  rw [if_neg hnonneg, Words.toUInt64_ofNat hroom]
  show (if UInt64.ofNat (limit - extracted) < declared then _ else _) = _
  rw [if_congr (lt_declared_iff (by omega)) rfl rfl]
  split_ifs
  · rfl
  · rfl

namespace Daemon

theorem extractFile_eq (target : Bytes) (e : ZipEntry) (hlimit : limit < 2 ^ 63) (hroom : extracted + remaining ≤ limit) :
    extractFile target e (.ofNat extracted) (.ofNat remaining) (.ofNat limit) =
      attempt (lift (Archive.Daemon.extractFile target e remaining limit)) fun written =>
        pure (.ok (.ofNat (extracted + written))) := by
  have hcopied := Words.returns_lift (returns_copyWithLimit target e.stream remaining)
  rw [extractFile, Archive.Daemon.extractFile, Words.lift_attempt, attempt_assoc]
  refine congrArg (attempt _) (funext fun _ => ?_)
  rw [Words.lift_attempt, attempt_assoc]
  refine congrArg (attempt _) (funext fun _ => ?_)
  rw [Words.lift_attempt, attempt_assoc]
  refine congrArg (attempt _) (funext fun _ => ?_)
  rw [Words.lift_bind, bind_attempt, copyWithLimit_eq target e.stream (by omega), bind_assoc]
  refine hcopied.bind_congr ?_
  rintro ⟨written, exceeded, copyErr⟩ hwritten
  dsimp only at hwritten
  show lift (close target) >>= _ = _
  rw [Words.lift_bind, bind_attempt]
  refine congrArg (lift (close target) >>= ·) (funext fun closed => ?_)
  cases copyErr with
  | some err => rfl
  | none =>
    cases exceeded with
    | true =>
      show lift (remove target) >>= _ = attempt (lift (remove target >>= _)) _
      rw [Words.lift_bind, bind_attempt, tooManyBytes_eq hlimit]
      rfl
    | false =>
      show Words.addInt64 _ _ >>= _ = _
      rw [Words.addInt64_ofNat (by omega)]
      cases closed with
      | error | ok => rfl

theorem returns_extractFile (target : Bytes) (e : ZipEntry) (remaining limit : Nat) :
    Returns (fun r => ∀ written, r = .ok written → written ≤ remaining)
      (Archive.Daemon.extractFile target e remaining limit) := by
  refine Returns.attempt (fun _ => ?_) (fun _ => nofun)
  refine Returns.attempt (fun _ => ?_) (fun _ => nofun)
  refine Returns.attempt (fun _ => ?_) (fun _ => nofun)
  refine (returns_copyWithLimit target e.stream remaining).bind ?_
  rintro ⟨written, exceeded, copyErr⟩ hwritten closed
  cases copyErr with
  | some err => exact nofun
  | none =>
    cases exceeded with
    | true =>
      intro _
      exact nofun
    | false =>
      cases closed with
      | error err => exact nofun
      | ok a =>
        intro written' heq
        rw [← Except.ok.inj heq]
        exact hwritten

theorem extractEntries_eq (dst : Bytes) (entries : List ZipEntry) (hlimit : limit < 2 ^ 63) (hextracted : extracted ≤ limit) :
    extractEntries dst (.ofNat limit) entries (.ofNat extracted) =
      lift (Archive.Daemon.extractEntries dst limit entries extracted) := by
  induction entries generalizing extracted with
  | nil => rfl
  | cons e entries ih =>
    rw [extractEntries, Archive.Daemon.extractEntries, Words.lift_attempt]
    refine congrArg (attempt _) (funext fun _ => ?_)
    dsimp only
    rw [reserve_eq hlimit hextracted, ZipEntry.declared]
    split_ifs with hdir hless hover hover
    · rw [Words.lift_attempt]
      exact congrArg (attempt _) (funext fun _ => ih hextracted)
    · rfl
    · exact absurd (.inr hless) hover
    · exact absurd hover (by omega)
    · rw [attempt_ok, extractFile_eq _ e hlimit (by omega), attempt_assoc, Words.lift_attempt]
      refine (Words.returns_lift (returns_extractFile _ e _ limit)).attempt_congr ?_
      intro written hwritten
      exact ih (by omega)

theorem extractZip_eq (archive : Except GoError (List ZipEntry)) (dst : Bytes) {maxArchiveFiles : Nat}
    (hlimit : limit < 2 ^ 63) (hfiles : maxArchiveFiles < 2 ^ 63) :
    extractZip archive dst (.ofNat limit) (.ofNat maxArchiveFiles) =
      lift (Archive.Daemon.extractZip archive dst limit maxArchiveFiles) := by
  cases archive with
  | error err => rfl
  | ok entries =>
    rw [extractZip, Archive.Daemon.extractZip, tooManyEntries_eq _ hfiles, if_congr (many_iff entries hfiles) rfl rfl]
    split_ifs
    · rfl
    · exact extractEntries_eq dst entries hlimit (Nat.zero_le _)

end Daemon

namespace Batch

theorem declaredTotal_eq (entries : List ZipEntry) {total : Nat} (hlimit : limit < 2 ^ 63) (htotal : total ≤ limit) :
    declaredTotal (.ofNat limit) entries (.ofNat total) = pure (Archive.Batch.declaredTotal limit entries total) := by
  induction entries generalizing total with
  | nil => rfl
  | cons e entries ih =>
    rw [declaredTotal, Archive.Batch.declaredTotal, Words.toUInt64_ofNat hlimit, ZipEntry.declared]
    show Words.subUInt64 _ _ >>= _ = _
    rw [Words.subUInt64_ofNat htotal (by omega), tooManyBytes_eq hlimit]
    show (if UInt64.ofNat (limit - total) < e.uncompressedSize64 then _ else _) = _
    rw [if_congr (lt_declared_iff (by omega)) rfl rfl]
    split_ifs with hless
    · rfl
    · have hadd : (Words.addUInt64 (.ofNat total) (.ofNat e.uncompressedSize64.toNat) : WideProg UInt64) =
          pure (.ofNat (total + e.uncompressedSize64.toNat)) := Words.addUInt64_ofNat (by omega)
      rw [UInt64.ofNat_toNat] at hadd
      rw [hadd]
      exact ih (by omega)

theorem extractFile_eq (target : Bytes) (e : ZipEntry) (hlimit : limit < 2 ^ 63) (hroom : extracted + remaining ≤ limit) :
    extractFile target e (.ofNat extracted) (.ofNat remaining) (.ofNat limit) =
      attempt (lift (Archive.Batch.extractFile target e remaining limit)) fun written =>
        pure (.ok (.ofNat (extracted + written))) := by
  have hcopied := Words.returns_lift (returns_copyWithLimit target e.stream remaining)
  rw [extractFile, Archive.Batch.extractFile, Words.lift_attempt, attempt_assoc]
  refine congrArg (attempt _) (funext fun _ => ?_)
  rw [Words.lift_attempt, attempt_assoc]
  refine congrArg (attempt _) (funext fun _ => ?_)
  rw [Words.lift_attempt, attempt_assoc]
  refine congrArg (attempt _) (funext fun _ => ?_)
  rw [Words.lift_bind, bind_attempt, copyWithLimit_eq target e.stream (by omega), bind_assoc]
  refine hcopied.bind_congr ?_
  rintro ⟨written, exceeded, copyErr⟩ hwritten
  dsimp only at hwritten
  cases copyErr with
  | some err => rfl
  | none =>
    cases exceeded with
    | true =>
      show lift (remove target) >>= _ = attempt (lift (remove target >>= _)) _
      rw [Words.lift_bind, bind_attempt, tooManyBytes_eq hlimit]
      rfl
    | false =>
      show Words.addInt64 _ _ >>= _ = _
      rw [Words.addInt64_ofNat (by omega)]
      rfl

theorem returns_extractFile (target : Bytes) (e : ZipEntry) (remaining limit : Nat) :
    Returns (fun r => ∀ written, r = .ok written → written ≤ remaining)
      (Archive.Batch.extractFile target e remaining limit) := by
  refine Returns.attempt (fun _ => ?_) (fun _ => nofun)
  refine Returns.attempt (fun _ => ?_) (fun _ => nofun)
  refine Returns.attempt (fun _ => ?_) (fun _ => nofun)
  refine (returns_copyWithLimit target e.stream remaining).bind ?_
  rintro ⟨written, exceeded, copyErr⟩ hwritten
  cases copyErr with
  | some err => exact nofun
  | none =>
    cases exceeded with
    | true =>
      intro _
      exact nofun
    | false =>
      intro written' heq
      rw [← Except.ok.inj heq]
      exact hwritten

theorem extractEntries_eq (dest : Bytes) (entries : List ZipEntry) (hlimit : limit < 2 ^ 63)
    (hextracted : extracted ≤ limit) : extractEntries dest (.ofNat limit) entries (.ofNat extracted) =
      lift (Archive.Batch.extractEntries dest limit entries extracted) := by
  induction entries generalizing extracted with
  | nil => rfl
  | cons e entries ih =>
    rw [extractEntries, Archive.Batch.extractEntries, Words.lift_attempt]
    refine congrArg (attempt _) (funext fun _ => ?_)
    dsimp only
    rw [reserve_eq hlimit hextracted, ZipEntry.declared]
    split_ifs with hempty hinside hdir hless hover hover
    · exact ih hextracted
    · rfl
    · rw [Words.lift_attempt]
      exact congrArg (attempt _) (funext fun _ => ih hextracted)
    · rfl
    · exact absurd (.inr hless) hover
    · exact absurd hover (by omega)
    · rw [attempt_ok, extractFile_eq _ e hlimit (by omega), attempt_assoc, Words.lift_attempt]
      refine (Words.returns_lift (returns_extractFile _ e _ limit)).attempt_congr ?_
      intro written hwritten
      exact ih (by omega)

theorem extractZip_eq (archive : Except GoError (List ZipEntry)) (dest : Bytes) {maxArchiveFiles : Nat}
    (hlimit : limit < 2 ^ 63) (hfiles : maxArchiveFiles < 2 ^ 63) :
    extractZip archive dest (.ofNat limit) (.ofNat maxArchiveFiles) =
      lift (Archive.Batch.extractZip archive dest limit maxArchiveFiles) := by
  cases archive with
  | error err => rfl
  | ok entries =>
    have hlimits : validateDaemonArchiveLimits entries (.ofNat limit) (.ofNat maxArchiveFiles) =
        pure (Archive.Batch.validateDaemonArchiveLimits entries limit maxArchiveFiles) := by
      rw [validateDaemonArchiveLimits, Archive.Batch.validateDaemonArchiveLimits, tooManyEntries_eq _ hfiles,
        if_congr (many_iff entries hfiles) rfl rfl]
      split_ifs
      · rfl
      · exact declaredTotal_eq entries hlimit (Nat.zero_le _)
    rw [extractZip, Archive.Batch.extractZip, hlimits, Words.lift_attempt]
    exact congrArg (attempt _) (funext fun _ => extractEntries_eq dest entries hlimit (Nat.zero_le _))

end Batch

end BuildkitService.Archive.Wide
