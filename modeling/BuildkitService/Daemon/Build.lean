import BuildkitService.Targets

/-!
# What the build daemon builds

`internal/builddaemon/build.go`: the build steps of a task, the requests sent to a worker and the
two classifiers of build errors.
-/

namespace BuildkitService.Daemon

open Strings

/-! ### Classifying build errors -/

def errorMentionsBuildkitAddr (msg buildkitAddr : Bytes) : Bool :=
  let addr := toLower (trimSpace buildkitAddr)
  if addr.isEmpty then false
  else
    let hostPort := trimPrefix (trimPrefix addr (ascii "tcp://")) (ascii "http://")
    let hostPort := trim (trimPrefix hostPort (ascii "https://")) (ascii "/")
    if hostPort.isEmpty then false else contains msg hostPort

def dialNeedles : List Bytes :=
  [ascii "connect: no route to host", ascii "connect: connection refused", ascii "failed to dial",
    ascii "i/o timeout"]

def transportNeedles : List Bytes :=
  [ascii "connection reset by peer", ascii "connection error", ascii "error reading server preface",
    ascii "transport is closing", ascii "unavailable"]

def isRetryableBuildkitAddrError (err buildkitAddr : Bytes) : Bool :=
  let msg := toLower err
  if dialNeedles.any (contains msg) then errorMentionsBuildkitAddr msg buildkitAddr
  else transportNeedles.any (contains msg)

def deterministicNeedles : List Bytes :=
  [ascii "did not complete successfully: exit code:", ascii "dockerfile parse error",
    ascii "failed to parse dockerfile", ascii "syntax error"]

def isDeterministicBuildError (err : Bytes) : Bool :=
  let msg := toLower err
  deterministicNeedles.any (contains msg)

/-! ### Build steps -/

inductive ImageType where
  | nydus
  | oci
  | both
  deriving DecidableEq, Repr

inductive Format where
  | nydus
  | oci
  deriving DecidableEq, Repr

structure BuildStep where
  image : Bytes
  format : Format
  baseImage : Bytes
  contextDir : Bytes
  deriving DecidableEq, Repr

def buildStepsForImageType (image : Bytes) : ImageType → List BuildStep
  | .oci => [⟨stripNydusV3Suffix image, .oci, [], []⟩]
  | .both =>
      let ociImage := stripNydusV3Suffix image
      [⟨ociImage, .oci, [], []⟩, ⟨ensureNydusV3Suffix ociImage, .nydus, ociImage, []⟩]
  | .nydus => [⟨ensureNydusV3Suffix image, .nydus, [], []⟩]

abbrev Exporter := List (Bytes × Bytes)

def exporterImageDigestKey : Bytes := ascii "containerimage.digest"

structure Registry where
  parseDigest : Bytes → Except Bytes Bytes
  parseNormalizedNamed : Bytes → Except Bytes Bytes
  pin : Bytes → Bytes → Except Bytes Bytes

def createNydusFromOCIContext (reg : Registry) (workDir image : Bytes) (exporter : Exporter)
    (written : Except Bytes Unit) : Except Bytes (Bytes × Bytes) := do
  let digestValue := trimSpace ((exporter.lookup exporterImageDigestKey).getD [])
  if digestValue.isEmpty then throw (ascii "OCI build did not return " ++ exporterImageDigestKey)
  let parsedDigest ← (reg.parseDigest digestValue).mapError fun e =>
    ascii "parse OCI image digest " ++ quote digestValue ++ ascii ": " ++ e
  let named ← (reg.parseNormalizedNamed (trimSpace image)).mapError fun e =>
    ascii "parse OCI image reference " ++ quote image ++ ascii ": " ++ e
  let baseImage ← (reg.pin named parsedDigest).mapError fun e =>
    ascii "pin OCI image reference " ++ quote image ++ ascii ": " ++ e
  written
  return (workDir ++ ascii "/nydus-from-oci", ascii "FROM " ++ baseImage ++ ascii "\n")

theorem bind_eq_ok {ε α β : Type} {x : Except ε α} {f : α → Except ε β} {b : β} :
    x.bind f = .ok b ↔ ∃ a, x = .ok a ∧ f a = .ok b := by
  cases x <;> simp [Except.bind]

theorem mapError_eq_ok {ε ε' α : Type} {f : ε → ε'} {x : Except ε α} {a : α} :
    x.mapError f = .ok a ↔ x = .ok a := by
  cases x <;> simp [Except.mapError]

theorem createNydusFromOCIContext_eq_ok {reg : Registry} {workDir image : Bytes} {exporter : Exporter}
    {written : Except Bytes Unit} {contextDir text : Bytes}
    (hcontext : createNydusFromOCIContext reg workDir image exporter written = .ok (contextDir, text)) :
    written = .ok () ∧ contextDir = workDir ++ ascii "/nydus-from-oci" ∧
    ∃ digestValue parsedDigest named baseImage,
      digestValue = trimSpace ((exporter.lookup exporterImageDigestKey).getD []) ∧ digestValue ≠ [] ∧
      reg.parseDigest digestValue = .ok parsedDigest ∧ reg.parseNormalizedNamed (trimSpace image) = .ok named ∧
      reg.pin named parsedDigest = .ok baseImage ∧ text = ascii "FROM " ++ baseImage ++ ascii "\n" := by
  simp only [createNydusFromOCIContext] at hcontext
  split_ifs at hcontext with hempty
  · cases hcontext
  · simp only [bind, bind_eq_ok, mapError_eq_ok] at hcontext
    obtain ⟨parsedDigest, hparsed, named, hnamed, baseImage, hpin, _, hwritten, hresult⟩ := hcontext
    cases hresult
    exact ⟨hwritten, rfl, _, parsedDigest, named, baseImage, rfl, by simpa using hempty, hparsed, hnamed,
      hpin, rfl⟩

structure BuildRunRequest where
  contextDir : Bytes
  buildkitAddr : Bytes
  image : Bytes
  format : Format
  target : Bytes
  noCache : Bool
  buildArgs : List (Bytes × Bytes)
  deriving DecidableEq, Repr

end BuildkitService.Daemon
