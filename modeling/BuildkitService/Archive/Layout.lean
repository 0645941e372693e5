import BuildkitService.Archive.Confined

/-!
# Layout of batch archives

`validateBuildArchive` of `internal/buildbatch/daemon_archive.go` decides whether an upload is
accepted, and `validateSourceImageDir` of `internal/buildbatch/workspace.go` whether a directory of
the extracted tree is built.
-/

namespace BuildkitService.Archive.Batch

open Strings Files
open Prog (attempt)

def dockerfile : Bytes := ascii "Dockerfile"

def metadata : Bytes := ascii "metadata.json"

/-! ### The check of an upload -/

structure TopLevel where
  name : Bytes
  children : List Bytes
  rootFile : Bool
  deriving DecidableEq, Repr

def TopLevel.note (parts : List Bytes) (isDir : Bool) (entry : TopLevel) : TopLevel :=
  match parts with
  | _ :: child :: _ => { entry with children := entry.children.insert child }
  | _ => if isDir then entry else { entry with rootFile := true }

def addTopLevel (parts : List Bytes) (isDir : Bool) (topLevels : List TopLevel) : List TopLevel :=
  let top := parts.headD []
  let known := if topLevels.any (·.name == top) then topLevels else topLevels ++ [⟨top, [], false⟩]
  known.map fun entry => if entry.name == top then entry.note parts isDir else entry

def collectTopLevels : List ZipEntry → List TopLevel → Except GoError (List TopLevel)
  | [], topLevels => .ok topLevels
  | file :: files, topLevels =>
      match validateBuildArchivePath file.name with
      | .error err => .error err
      | .ok cleaned =>
          if cleaned.isEmpty then collectTopLevels files topLevels
          else collectTopLevels files (addTopLevel (split Path.slash cleaned) file.isDir topLevels)

def TopLevel.missing (entry : TopLevel) : List Bytes :=
  [dockerfile, metadata].filter fun name => !entry.children.contains name

def TopLevel.describe (entry : TopLevel) : Bytes :=
  let childPreview := (entry.children.insertionSort fun a b => (!less b a) = true).take 3
  entry.name ++ ascii " (missing " ++ (ascii " and ").intercalate entry.missing ++
    (if childPreview.isEmpty then [] else ascii ", contains " ++ (ascii ", ").intercalate childPreview) ++ ascii ")"

def limitBuildArchiveList (values : List Bytes) (limit : Nat) : List Bytes :=
  if values.length ≤ limit then values
  else values.take limit ++ [ascii "... and " ++ decimal (values.length - limit) ++ ascii " more"]

def judgeTopLevels (topLevels : List TopLevel) : Except GoError Nat :=
  let sorted := topLevels.insertionSort fun a b => (!less b.name a.name) = true
  let rootFiles := (sorted.filter (·.rootFile)).map (·.name)
  let dirs := sorted.filter fun entry => !entry.rootFile
  let invalidDirs := (dirs.filter fun entry => !entry.missing.isEmpty).map TopLevel.describe
  let validCount := (dirs.filter fun entry => entry.missing.isEmpty).length
  if topLevels.isEmpty then
    .error (errorf (ascii "zip archive is empty or does not contain any image directories"))
  else if rootFiles ≠ [] then
    .error (errorf (ascii "zip root must contain only image directories, found root file entries: " ++
      (ascii ", ").intercalate (limitBuildArchiveList rootFiles 5)))
  else if invalidDirs ≠ [] then
    .error (errorf (ascii "zip root must directly contain image directories with Dockerfile and metadata.json; " ++
      ascii "invalid top-level directories: " ++ (ascii "; ").intercalate (limitBuildArchiveList invalidDirs 5)))
  else if validCount = 0 then
    .error (errorf (ascii "zip archive does not contain any valid image directories"))
  else .ok validCount

def validateBuildArchive (archive : Except GoError (List ZipEntry)) (maxExtractedBytes maxArchiveFiles : Nat) :
    Except GoError Nat := do
  let files ← archive
  validateDaemonArchiveLimits files maxExtractedBytes maxArchiveFiles
  let topLevels ← collectTopLevels files []
  judgeTopLevels topLevels

/-! ### The check of a directory -/

def requireRegularFile (path : Bytes) : FsProg (Except GoError Unit) := do
  match ← stat path with
  | .error err =>
      if err.is = some .notExist then pure (.error (errorf (ascii "missing required file " ++ Path.base path)))
      else pure (.error err)
  | .ok info =>
      if info.isDir then
        pure (.error (errorf (ascii "required file " ++ Path.base path ++ ascii " must be a regular file")))
      else pure (.ok ())

def validateSourceImageDir (dir : Bytes) : FsProg (Except GoError Unit) := do
  match ← requireRegularFile (Path.join dir dockerfile) with
  | .error err => pure (.error (err.wrap (dir ++ ascii ": ")))
  | .ok () =>
      match ← requireRegularFile (Path.join dir metadata) with
      | .error err => pure (.error (err.wrap (dir ++ ascii ": ")))
      | .ok () => pure (.ok ())

end BuildkitService.Archive.Batch
