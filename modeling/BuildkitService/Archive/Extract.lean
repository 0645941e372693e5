import BuildkitService.Lib.Files

/-!
# Extracting archives

`extractZip` of `internal/builddaemon/workspace.go` and its namesake of
`internal/buildbatch/daemon_archive.go`, with the checks on the names of entries.
-/

namespace BuildkitService.Archive

open Strings Files
open Prog (attempt)

/-! ### Entries -/

structure Stream where
  content : Bytes
  err : Option GoError
  together : Bool
  deriving DecidableEq, Repr

def Stream.probe (src : Stream) (limit : Nat) : Bool × Option GoError :=
  if limit < src.content.length then
    (true, if src.together = true ∧ limit + 1 = src.content.length then src.err else none)
  else (false, src.err)

structure ZipEntry where
  name : Bytes
  dirMode : Bool
  uncompressedSize64 : UInt64
  opened : Except GoError Unit
  stream : Stream

def ZipEntry.declared (e : ZipEntry) : Nat := e.uncompressedSize64.toNat

def ZipEntry.isDir (e : ZipEntry) : Bool := e.dirMode || hasSuffix e.name (ascii "/")

def errArchiveLimit : Bytes := ascii "archive exceeds configured limit"

def limitError (text : Bytes) : GoError := ⟨errArchiveLimit ++ ascii ": " ++ text, some .archiveLimit⟩

def tooManyEntries (count limit : Nat) : GoError :=
  limitError (ascii "archive has " ++ decimal count ++ ascii " entries, maximum is " ++ decimal limit)

def tooManyBytes (limit : Nat) : GoError :=
  limitError (ascii "extracted content exceeds " ++ decimal limit ++ ascii " bytes")

/-! ### Copying -/

def copyBytes (path : Bytes) : Bytes → Nat → FsProg (Nat × Option GoError)
  | [], written => pure (written, none)
  | b :: rest, written => do
      match ← writeByte path b with
      | .ok () => copyBytes path rest (written + 1)
      | .error e => pure (written, some e)

def copyWithLimit (path : Bytes) (src : Stream) (limit : Nat) : FsProg (Nat × Bool × Option GoError) := do
  let (written, err) ← copyBytes path (src.content.take limit) 0
  match err with
  | some e => pure (written, false, some e)
  | none =>
      match src.probe limit with
      | (_, some e) => pure (written, false, some e)
      | (more, none) => pure (written, more, none)

/-! ### The build daemon -/

namespace Daemon

def invalidPath (name : Bytes) : GoError := errorf (ascii "invalid zip path " ++ quote name)

def validateBuildArchivePath (name : Bytes) : Except GoError Unit :=
  if name.isEmpty || hasPrefix name (ascii "/") then .error (invalidPath name)
  else
    let clean := Path.clean name
    if clean = Path.dot ∨ clean = Path.dotdot ∨ hasPrefix clean (ascii "../") = true then .error (invalidPath name)
    else .ok ()

def extractFile (target : Bytes) (e : ZipEntry) (remaining limit : Nat) : FsProg (Except GoError Nat) :=
  attempt (mkdirAll (Path.dir target)) fun () =>
  attempt (pure e.opened) fun () =>
  attempt (create target) fun () => do
    let (written, exceeded, copyErr) ← copyWithLimit target e.stream remaining
    let closed ← close target
    match copyErr with
    | some err => pure (.error err)
    | none =>
        if exceeded then do
          let () ← remove target
          pure (.error (tooManyBytes limit))
        else
          match closed with
          | .error err => pure (.error err)
          | .ok () => pure (.ok written)

def extractEntries (dst : Bytes) (limit : Nat) : List ZipEntry → Nat → FsProg (Except GoError Unit)
  | [], _ => pure (.ok ())
  | e :: entries, extracted =>
      attempt (pure (validateBuildArchivePath e.name)) fun () =>
        let target := Path.join dst e.name
        if e.isDir then attempt (mkdirAll target) fun () => extractEntries dst limit entries extracted
        else if limit < extracted ∨ limit - extracted < e.declared then pure (.error (tooManyBytes limit))
        else attempt (extractFile target e (limit - extracted) limit) fun written =>
          extractEntries dst limit entries (extracted + written)

def extractZip (archive : Except GoError (List ZipEntry)) (dst : Bytes) (maxExtractedBytes maxArchiveFiles : Nat) :
    FsProg (Except GoError Unit) :=
  match archive with
  | .error err => pure (.error (err.wrap (ascii "open zip: ")))
  | .ok entries =>
      if maxArchiveFiles < entries.length then pure (.error (tooManyEntries entries.length maxArchiveFiles))
      else extractEntries dst maxExtractedBytes entries 0

end Daemon

/-! ### The batch daemon -/

namespace Batch

def daemonMaxExtractedBytes : Nat := 2 ^ 32

def daemonMaxArchiveFiles : Nat := 100000

def replaceBackslashes (s : Bytes) : Bytes := s.map fun b => if b == 0x5C then 0x2F else b

def validateBuildArchivePath (name : Bytes) : Except GoError Bytes :=
  let normalized := replaceBackslashes (trimSpace name)
  if normalized.isEmpty then .ok []
  else if hasPrefix normalized (ascii "/") then
    .error (errorf (ascii "zip contains absolute path " ++ quote name))
  else
    let cleaned := Path.clean normalized
    if cleaned = Path.dot then .ok []
    else if cleaned = Path.dotdot ∨ hasPrefix cleaned (ascii "../") = true then
      .error (errorf (ascii "zip contains invalid path " ++ quote name))
    else .ok cleaned

def declaredTotal (limit : Nat) : List ZipEntry → Nat → Except GoError Unit
  | [], _ => .ok ()
  | e :: entries, total =>
      if limit - total < e.declared then .error (tooManyBytes limit)
      else declaredTotal limit entries (total + e.declared)

def validateDaemonArchiveLimits (entries : List ZipEntry) (maxExtractedBytes maxArchiveFiles : Nat) :
    Except GoError Unit :=
  if maxArchiveFiles < entries.length then .error (tooManyEntries entries.length maxArchiveFiles)
  else declaredTotal maxExtractedBytes entries 0

def extractFile (target : Bytes) (e : ZipEntry) (remaining limit : Nat) : FsProg (Except GoError Nat) :=
  attempt (mkdirAll (Path.dir target)) fun () =>
  attempt (create target) fun () =>
  attempt (pure e.opened) fun () => do
    let (written, exceeded, copyErr) ← copyWithLimit target e.stream remaining
    match copyErr with
    | some err => pure (.error err)
    | none =>
        if exceeded then do
          let () ← remove target
          pure (.error (tooManyBytes limit))
        else pure (.ok written)

def extractEntries (dest : Bytes) (limit : Nat) : List ZipEntry → Nat → FsProg (Except GoError Unit)
  | [], _ => pure (.ok ())
  | e :: entries, extracted =>
      attempt (pure (validateBuildArchivePath e.name)) fun cleaned =>
        if cleaned.isEmpty then extractEntries dest limit entries extracted
        else
          let target := Path.clean (Path.join dest cleaned)
          if hasPrefix target (Path.clean dest ++ ascii "/") = false then
            pure (.error (errorf (ascii "zip contains invalid path " ++ quote e.name)))
          else if e.isDir then
            attempt (mkdirAll target) fun () => extractEntries dest limit entries extracted
          else if limit < extracted ∨ limit - extracted < e.declared then pure (.error (tooManyBytes limit))
          else attempt (extractFile target e (limit - extracted) limit) fun written =>
            extractEntries dest limit entries (extracted + written)

def extractZip (archive : Except GoError (List ZipEntry)) (dest : Bytes) (maxExtractedBytes maxArchiveFiles : Nat) :
    FsProg (Except GoError Unit) :=
  match archive with
  | .error err => pure (.error err)
  | .ok entries =>
      attempt (pure (validateDaemonArchiveLimits entries maxExtractedBytes maxArchiveFiles)) fun () =>
        extractEntries dest maxExtractedBytes entries 0

end Batch

end BuildkitService.Archive
