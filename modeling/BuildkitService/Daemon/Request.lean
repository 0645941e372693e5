import BuildkitService.Archive.Extract
import BuildkitService.Daemon.Router
import BuildkitService.Daemon.Task
import BuildkitService.Dockerfile.Transform

/-!
# What a create request asks for

The parameters of a create request, `internal/builddaemon/build_request.go`, and what is done with
its files, `internal/builddaemon/workspace.go` and `PreprocessDockerfile` of
`pkg/dockerfilepreprocess`.
-/

namespace BuildkitService.Daemon

open Strings Files Archive
open Prog (attempt)

/-! ### Parameters -/

structure Upload where
  size : Nat
  opened : Except GoError Unit
  stream : Stream

structure Form where
  query : List (Bytes × List Bytes)
  multipart : List (Bytes × List Bytes)
  file : Option Upload

def Form.queryParam (form : Form) (key : Bytes) : Bytes := ((form.query.lookup key).getD []).headD []

def Form.formValue (form : Form) (key : Bytes) : Bytes :=
  ((form.query.lookup key).getD [] ++ (form.multipart.lookup key).getD []).headD []

def firstNonEmpty : List Bytes → Bytes
  | [] => []
  | value :: values => if (trimSpace value).isEmpty then firstNonEmpty values else value

def queryBool (raw : Bytes) : Bool :=
  [ascii "1", ascii "t", ascii "true", ascii "y", ascii "yes", ascii "on"].contains (toLower (trimSpace raw))

def parseOptionalPositiveInt (raw : Bytes) : Except Bytes Int :=
  if (trimSpace raw).isEmpty then .ok 0
  else match atoi (trimSpace raw) with
    | some parsed =>
        if parsed ≤ 0 then .error (ascii "timeout_seconds must be a positive integer") else .ok parsed
    | none => .error (ascii "timeout_seconds must be a positive integer")

def parseOptionalNonNegativeInt (raw name : Bytes) (default : Nat) : Except Bytes Nat :=
  if (trimSpace raw).isEmpty then .ok default
  else match atoi (trimSpace raw) with
    | some parsed =>
        if parsed < 0 then .error (name ++ ascii " must be a non-negative integer") else .ok parsed.toNat
    | none => .error (name ++ ascii " must be a non-negative integer")

def buildArgName (key : Bytes) : Option Bytes :=
  if hasPrefix key (ascii "build_arg.") then some (trimSpace (trimPrefix key (ascii "build_arg.")))
  else if hasPrefix key (ascii "build_arg:") then some (trimSpace (trimPrefix key (ascii "build_arg:")))
  else none

def parseBuildArgs (form : Form) : List (Bytes × Bytes) :=
  form.multipart.foldl (fun args entry =>
    match entry.2, buildArgName entry.1 with
    | value :: _, some name =>
        if name.isEmpty then args else (name, value) :: args.filter fun arg => arg.1 != name
    | _, _ => args) []

def parseImageType (raw : Bytes) : Except Bytes ImageType :=
  let value := toLower (trimSpace raw)
  if value = [] ∨ value = ascii "nydus" then .ok .nydus
  else if value = ascii "oci" ∨ value = ascii "gzip" then .ok .oci
  else if value = ascii "both" then .ok .both
  else .error (ascii "image_type must be one of nydus, oci, both")

structure BuildModes where
  defaultMode : Bytes
  configs : List (Bytes × Bool)

def BuildModes.resolve (modes : Option BuildModes) (raw : Bytes) : Except Bytes (Bytes × Bool) :=
  match modes with
  | none => .error (ascii "build modes are not configured")
  | some modes =>
      let name := if (trimSpace raw).isEmpty then modes.defaultMode else trimSpace raw
      match modes.configs.lookup name with
      | none => .error (ascii "unknown build mode " ++ quote name)
      | some routingEnabled => .ok (name, routingEnabled)

def seconds (n : Int) : Int64 := Int64.ofInt n * 1000000000

/-! ### Files -/

def compressedTooLarge (maxBytes : Nat) : GoError :=
  limitError (ascii "compressed upload exceeds " ++ decimal maxBytes ++ ascii " bytes")

def saveUploadedFile (upload : Upload) (dst : Bytes) (maxBytes : Nat) : FsProg (Except GoError Unit) :=
  if maxBytes < upload.size then pure (.error (compressedTooLarge maxBytes))
  else match upload.opened with
    | .error err => pure (.error (err.wrap (ascii "open upload: ")))
    | .ok () => do
        match ← create dst with
        | .error err => pure (.error (err.wrap (ascii "create upload file: ")))
        | .ok () =>
            let (_, exceeded, err) ← copyWithLimit dst upload.stream maxBytes
            let _ ← close dst
            match err with
            | some err => pure (.error (err.wrap (ascii "save upload: ")))
            | none => if exceeded then pure (.error (compressedTooLarge maxBytes)) else pure (.ok ())

def fileExists (path : Bytes) : FsProg Bool := do
  match ← stat path with
  | .ok info => pure (!info.isDir)
  | .error _ => pure false

def contextCandidates (root : Bytes) : List (Bytes × Bool) → FsProg (List Bytes)
  | [] => pure []
  | (name, isDir) :: entries =>
      if isDir then do
        let found ← fileExists (Path.join (Path.join root name) (ascii "Dockerfile"))
        let candidates ← contextCandidates root entries
        pure (if found then Path.join root name :: candidates else candidates)
      else contextCandidates root entries

def findBuildContext (root : Bytes) : FsProg (Except GoError Bytes) := do
  if ← fileExists (Path.join root (ascii "Dockerfile")) then pure (.ok root)
  else
    attempt (readDir root) fun entries => do
      match ← contextCandidates root entries with
      | [candidate] => pure (.ok candidate)
      | _ => pure (.error (errorf (ascii "zip must contain Dockerfile at root or in one top-level directory")))

def writeFile (path content : Bytes) : FsProg (Except GoError Unit) :=
  attempt (create path) fun () => do
    let (_, err) ← copyBytes path content 0
    let closed ← close path
    match err with
    | some err => pure (.error err)
    | none => pure closed

def preprocessDockerfile (fe : Dockerfile.Frontend) (path : Bytes) : FsProg (Except GoError Bool) :=
  attempt (readFile path) fun raw =>
    match Dockerfile.transformLegacyHeredocs fe raw with
    | .error err => pure (.error (errorf err))
    | .ok (processed, changed) =>
        if changed then
          attempt (stat path) fun _ => attempt (writeFile path processed) fun () => pure (.ok true)
        else pure (.ok false)

def resolveBuildImage (unmarshal : Bytes → Except GoError Bytes) (contextDir imageOverride : Bytes) :
    FsProg (Except GoError Bytes) :=
  if (trimSpace imageOverride).isEmpty then do
    match ← readFile (Path.join contextDir (ascii "metadata.json")) with
    | .error err =>
        if err.is = some .notExist then pure (.error (errorf (ascii "image is required when metadata.json is missing")))
        else pure (.error (err.wrap (ascii "read metadata.json: ")))
    | .ok raw =>
        match unmarshal raw with
        | .error err => pure (.error (err.wrap (ascii "parse metadata.json: ")))
        | .ok target =>
            if (trimSpace target).isEmpty then
              pure (.error (errorf (ascii "image is required when metadata.json target is empty")))
            else pure (.ok (trimSpace target))
  else pure (.ok (trimSpace imageOverride))

end BuildkitService.Daemon
