import BuildkitService.Lib.Argmax
import BuildkitService.Lib.Strings
import Mathlib.Data.List.Sort
import Mathlib.Data.UInt
import Mathlib.Data.Vector.Defs

/-!
# Routing images to registries

`internal/builddaemon/target_router.go`.
-/

namespace BuildkitService.Daemon

open Strings
open List hiding Vector

/-! ### Targets -/

structure Named where
  domain : Bytes
  path : Bytes
  tag : Option Bytes
  digest : Option Bytes
  deriving DecidableEq, Repr

structure RoutingLib where
  unmarshal : Bytes → Except Bytes (List Bytes)
  parseNormalizedNamed : Bytes → Except Bytes Named
  sum256 : Bytes → Vector UInt8 32

structure RegistryRoutingTarget where
  registryPrefix : Bytes
  host : Bytes
  pathPrefix : Bytes
  deriving DecidableEq, Repr

structure RegistryTargetRouter where
  targets : List RegistryRoutingTarget
  deriving DecidableEq, Repr

def minRoutingTargets : Nat := 2

def maxRoutingTargets : Nat := 32

def probeRepository : Bytes := ascii "buildctl-route-probe"

def invalidRoutingTarget (raw : Bytes) : Bytes := ascii "invalid routing target " ++ quote raw

def routingTarget (host pathPrefix : Bytes) : RegistryRoutingTarget :=
  ⟨if pathPrefix.isEmpty then host else host ++ ascii "/" ++ pathPrefix, host, pathPrefix⟩

def parseRoutingTarget (lib : RoutingLib) (raw : Bytes) : Except Bytes RegistryRoutingTarget :=
  let registryPrefix := trimRight (trimSpace raw) (ascii "/")
  if registryPrefix.isEmpty || contains registryPrefix (ascii "://") then .error (invalidRoutingTarget raw)
  else
    let firstComponent := registryPrefix.takeWhile (· != 0x2F)
    if firstComponent != ascii "localhost" && !contains firstComponent (ascii ".") &&
        !contains firstComponent (ascii ":") then .error (invalidRoutingTarget raw)
    else
      match lib.parseNormalizedNamed (registryPrefix ++ ascii "/" ++ probeRepository ++ ascii ":latest") with
      | .error err => .error (invalidRoutingTarget raw ++ ascii ": " ++ err)
      | .ok probe =>
          let pathPrefix := trimSuffix probe.path (ascii "/" ++ probeRepository)
          if probe.path = probeRepository then .ok (routingTarget probe.domain [])
          else if pathPrefix = probe.path then .error (invalidRoutingTarget raw)
          else .ok (routingTarget probe.domain pathPrefix)

def collectTargets (lib : RoutingLib) (targets : List RegistryRoutingTarget) :
    List Bytes → Except Bytes (List RegistryRoutingTarget)
  | [] => .ok targets
  | raw :: prefixes =>
      match parseRoutingTarget lib raw with
      | .error err => .error err
      | .ok target =>
          if (targets.map RegistryRoutingTarget.registryPrefix).contains target.registryPrefix then
            .error (ascii "duplicate routing target " ++ quote raw)
          else collectTargets lib (targets ++ [target]) prefixes

def prefixLe (a b : RegistryRoutingTarget) : Bool := !less b.registryPrefix a.registryPrefix

def parseRoutingTargets (lib : RoutingLib) (raw : Bytes) : Except Bytes (Option RegistryTargetRouter) :=
  if (trimSpace raw).isEmpty then .ok none
  else
    match lib.unmarshal raw with
    | .error err => .error (ascii "parse --routing-targets-json: " ++ err)
    | .ok prefixes =>
        if prefixes.length < minRoutingTargets ∨ maxRoutingTargets < prefixes.length then
          .error (ascii "routing targets must contain between " ++ decimal minRoutingTargets ++
            ascii " and " ++ decimal maxRoutingTargets ++ ascii " registry prefixes")
        else
          match collectTargets lib [] prefixes with
          | .error err => .error err
          | .ok targets => .ok (some ⟨targets.insertionSort fun a b => prefixLe a b = true⟩)

/-! ### Routing -/

def hexValue (a : UInt8) : Option UInt8 :=
  if 0x30 ≤ a && a ≤ 0x39 then some (a - 0x30)
  else if 0x61 ≤ a && a ≤ 0x66 then some (a - 0x57)
  else if 0x41 ≤ a && a ≤ 0x46 then some (a - 0x37)
  else none

def hexDecode : Bytes → Option Bytes
  | [] => some []
  | [_] => none
  | a :: b :: s =>
      match hexValue a, hexValue b, hexDecode s with
      | some high, some low, some rest => some ((high * 16 + low) :: rest)
      | _, _, _ => none

def contextDigestError : Bytes := ascii "context_sha256 must be a 64-character hexadecimal digest"

def normalizeContextSHA256 (value : Bytes) : Except Bytes Bytes :=
  let value := toLower (trimSpace value)
  if value.length ≠ 64 then .error contextDigestError
  else
    match hexDecode value with
    | none => .error contextDigestError
    | some decoded => if decoded.length ≠ 32 then .error contextDigestError else .ok value

def rendezvousScore (lib : RoutingLib) (registryPrefix contextSHA256 : Bytes) : Vector UInt8 32 :=
  lib.sum256 (registryPrefix ++ [0x00] ++ contextSHA256)

def selectTarget (lib : RoutingLib) (digest : Bytes) (selected : RegistryRoutingTarget)
    (selectedScore : Vector UInt8 32) : List RegistryRoutingTarget → RegistryRoutingTarget
  | [] => selected
  | target :: targets =>
      let score := rendezvousScore lib target.registryPrefix digest
      if less selectedScore.toList score.toList then selectTarget lib digest target score targets
      else selectTarget lib digest selected selectedScore targets

def RegistryTargetRouter.selected (lib : RoutingLib) (router : RegistryTargetRouter) (digest : Bytes) :
    Option RegistryRoutingTarget :=
  match router.targets with
  | [] => none
  | first :: targets =>
      some (selectTarget lib digest first (rendezvousScore lib first.registryPrefix digest) targets)

def routedImage (selected : RegistryRoutingTarget) (named : Named) : Bytes :=
  let path :=
    if !selected.pathPrefix.isEmpty && named.path != selected.pathPrefix &&
        !hasPrefix named.path (selected.pathPrefix ++ ascii "/") then
      selected.pathPrefix ++ ascii "/" ++ named.path
    else named.path
  let suffix := (named.tag.map (ascii ":" ++ ·)).getD [] ++ (named.digest.map (ascii "@" ++ ·)).getD []
  selected.host ++ ascii "/" ++ path ++ suffix

def route (lib : RoutingLib) (router : Option RegistryTargetRouter) (image contextSHA256 : Bytes) :
    Except Bytes Bytes :=
  match router with
  | none => .error (ascii "routing targets are not configured")
  | some router =>
      if router.targets.isEmpty then .error (ascii "routing targets are not configured")
      else do
        let digest ← normalizeContextSHA256 contextSHA256
        let named ← (lib.parseNormalizedNamed (trimSpace image)).mapError
          (ascii "parse image for registry routing: " ++ ·)
        match router.selected lib digest with
        | none => .error (ascii "routing targets are not configured")
        | some selected => return routedImage selected named

/-! ### Accepted lists -/

variable {lib : RoutingLib} {prefixes : List Bytes} {router : RegistryTargetRouter}

theorem prefixLe_iff (a b : RegistryRoutingTarget) :
    prefixLe a b = true ↔ ¬ b.registryPrefix < a.registryPrefix := by
  rw [prefixLe, Bool.not_eq_true', ← Bool.not_eq_true, less_iff]

instance : Std.Total fun a b : RegistryRoutingTarget => prefixLe a b = true where
  total a b := by
    rw [prefixLe_iff, prefixLe_iff, ← not_and_or]
    intro hboth
    exact asymm_of (· < ·) hboth.1 hboth.2

instance : IsTrans RegistryRoutingTarget fun a b => prefixLe a b = true where
  trans a b c hab hbc := by
    rw [prefixLe_iff] at hab hbc ⊢
    exact List.le_trans (List.not_lt.1 hab) (List.not_lt.1 hbc)

theorem collectTargets_ok {targets result : List RegistryRoutingTarget}
    (hunique : (targets.map RegistryRoutingTarget.registryPrefix).Nodup)
    (hcollect : collectTargets lib targets prefixes = .ok result) :
    (result.map RegistryRoutingTarget.registryPrefix).Nodup ∧
    (∀ t, t ∈ result ↔ t ∈ targets ∨ ∃ raw ∈ prefixes, parseRoutingTarget lib raw = .ok t) ∧
    result.length = targets.length + prefixes.length := by
  induction prefixes generalizing targets with
  | nil =>
    rw [collectTargets, Except.ok.injEq] at hcollect
    subst hcollect
    refine ⟨hunique, ?_, rfl⟩
    intro t
    simp
  | cons raw prefixes ih =>
    unfold collectTargets at hcollect
    split at hcollect
    · cases hcollect
    · rename_i target hparse
      split_ifs at hcollect with hduplicate
      rw [contains_iff_mem] at hduplicate
      have hnew : ((targets ++ [target]).map RegistryRoutingTarget.registryPrefix).Nodup := by
        rw [map_append, map_singleton, nodup_append]
        refine ⟨hunique, nodup_singleton _, ?_⟩
        intro a ha b hb
        rw [mem_singleton] at hb
        rintro rfl
        exact hduplicate (hb ▸ ha)
      obtain ⟨hnodup, hmem, hlength⟩ := ih hnew hcollect
      refine ⟨hnodup, ?_, ?_⟩
      · intro t
        rw [hmem, mem_append, mem_singleton, exists_mem_cons_iff, or_assoc]
        have hsame : t = target ↔ parseRoutingTarget lib raw = .ok t := by
          rw [hparse, Except.ok.injEq, eq_comm]
        rw [hsame]
      · rw [hlength, length_append, length_singleton, length_cons]
        omega

structure RegistryTargetRouter.Accepted (lib : RoutingLib) (router : RegistryTargetRouter)
    (prefixes : List Bytes) : Prop where
  size : minRoutingTargets ≤ router.targets.length ∧ router.targets.length ≤ maxRoutingTargets
  sorted : router.targets.Pairwise fun a b => a.registryPrefix < b.registryPrefix
  mem : ∀ t, t ∈ router.targets ↔ ∃ raw ∈ prefixes, parseRoutingTarget lib raw = .ok t

theorem parseRoutingTargets_accepted {raw : Bytes} (hdecoded : lib.unmarshal raw = .ok prefixes)
    (hparse : parseRoutingTargets lib raw = .ok (some router)) : router.Accepted lib prefixes := by
  unfold parseRoutingTargets at hparse
  rw [hdecoded] at hparse
  dsimp only at hparse
  split_ifs at hparse with hblank hcount
  · cases hparse
  · split at hparse
    · cases hparse
    · rename_i targets hcollect
      simp only [Except.ok.injEq, Option.some.injEq] at hparse
      subst hparse
      obtain ⟨hnodup, hmem, hlength⟩ := collectTargets_ok (by simp) hcollect
      refine ⟨?_, ?_, ?_⟩
      · rw [length_insertionSort, hlength, length_nil]
        omega
      · -- Sorted by a total preorder, and no two prefixes are equal.
        have hle := pairwise_insertionSort (fun a b => prefixLe a b = true) targets
        have hperm := perm_insertionSort (fun a b => prefixLe a b = true) targets
        have hne : (targets.insertionSort fun a b => prefixLe a b = true).Pairwise
            fun a b => a.registryPrefix ≠ b.registryPrefix :=
          pairwise_map.1 ((hperm.map RegistryRoutingTarget.registryPrefix).nodup_iff.2 hnodup)
        refine (hle.and hne).imp ?_
        intro a b hab
        rw [prefixLe_iff] at hab
        by_contra hnot
        exact hab.2 (List.le_antisymm (List.not_lt.1 hab.1) (List.not_lt.1 hnot))
      · intro t
        rw [(perm_insertionSort _ _).mem_iff, hmem]
        simp

theorem parseRoutingTargets_decoded {raw : Bytes} (hparse : parseRoutingTargets lib raw = .ok (some router)) :
    ∃ prefixes, lib.unmarshal raw = .ok prefixes := by
  unfold parseRoutingTargets at hparse
  split_ifs at hparse
  · cases hparse
  · split at hparse
    · cases hparse
    · exact ⟨_, by assumption⟩

theorem RegistryTargetRouter.Accepted.nonempty (haccepted : router.Accepted lib prefixes) :
    router.targets.isEmpty = false := by
  have hsize := haccepted.size.1
  cases htargets : router.targets with
  | nil =>
    rw [htargets] at hsize
    exact absurd hsize (by decide)
  | cons first targets => rfl

/-! ### The selected target -/

def scoreFor (lib : RoutingLib) (digest : Bytes) (target : RegistryRoutingTarget) : Bytes :=
  (rendezvousScore lib target.registryPrefix digest).toList

theorem selectTarget_eq (digest : Bytes) (selected : RegistryRoutingTarget)
    (targets : List RegistryRoutingTarget) :
    selectTarget lib digest selected (rendezvousScore lib selected.registryPrefix digest) targets =
      Argmax.scan (scoreFor lib digest) selected targets := by
  induction targets generalizing selected with
  | nil => rfl
  | cons target targets ih =>
    simp only [selectTarget, Argmax.scan, less_iff]
    split_ifs with hless hscan hscan
    · exact ih target
    · exact absurd hless hscan
    · exact absurd hscan hless
    · exact ih selected

section

variable (haccepted : router.Accepted lib prefixes)

include haccepted

theorem RegistryTargetRouter.Accepted.leader (digest : Bytes) :
    ∃ selected, router.selected lib digest = some selected ∧
      Argmax.IsLeader (scoreFor lib digest) RegistryRoutingTarget.registryPrefix router.targets selected := by
  have hnonempty := haccepted.nonempty
  have hsorted := haccepted.sorted
  unfold RegistryTargetRouter.selected
  cases htargets : router.targets with
  | nil =>
    rw [htargets] at hnonempty
    cases hnonempty
  | cons first targets =>
    rw [htargets] at hsorted
    refine ⟨_, rfl, ?_⟩
    rw [selectTarget_eq]
    exact Argmax.scan_isLeader hsorted

theorem RegistryTargetRouter.Accepted.selected_of_subset {other : RegistryTargetRouter} {others : List Bytes}
    (hother : other.Accepted lib others)
    (hsub : router.targets ⊆ other.targets) {digest : Bytes} {selected : RegistryRoutingTarget}
    (hselected : other.selected lib digest = some selected) (hkept : selected ∈ router.targets) :
    router.selected lib digest = some selected := by
  obtain ⟨first, hfirst, hleader⟩ := haccepted.leader digest
  obtain ⟨second, hsecond, hother⟩ := hother.leader digest
  rw [hselected, Option.some.injEq] at hsecond
  subst hsecond
  rw [hfirst, hleader.unique (hother.subset hsub hkept)]

theorem route_congr {other : RegistryTargetRouter} {others : List Bytes}
    (hother : other.Accepted lib others) {contextSHA256 : Bytes}
    (hselected : ∀ digest, normalizeContextSHA256 contextSHA256 = .ok digest → router.selected lib digest = other.selected lib digest)
    (image : Bytes) :
    route lib (some router) image contextSHA256 = route lib (some other) image contextSHA256 := by
  simp only [route, haccepted.nonempty, hother.nonempty]
  cases hdigest : normalizeContextSHA256 contextSHA256 with
  | error err => rfl
  | ok digest =>
    dsimp only [bind, Except.bind]
    rw [hselected digest hdigest]

end

/-- Routing depends on the set of targets alone. -/
theorem routing_is_canonical {raw other : Bytes} {prefixes others : List Bytes}
    {router rerouter : RegistryTargetRouter} (hdecoded : lib.unmarshal raw = .ok prefixes)
    (hparse : parseRoutingTargets lib raw = .ok (some router)) (hother : lib.unmarshal other = .ok others)
    (hreparse : parseRoutingTargets lib other = .ok (some rerouter)) :
    (prefixes.Perm others → ∀ image contextSHA256,
      route lib (some router) image contextSHA256 = route lib (some rerouter) image contextSHA256) ∧
    (router.targets ⊆ rerouter.targets → ∀ contextSHA256 digest selected,
      normalizeContextSHA256 contextSHA256 = .ok digest → rerouter.selected lib digest = some selected →
      selected ∈ router.targets → router.selected lib digest = some selected ∧
      ∀ image, route lib (some router) image contextSHA256 = route lib (some rerouter) image contextSHA256) := by
  have haccepted := parseRoutingTargets_accepted hdecoded hparse
  have hreaccepted := parseRoutingTargets_accepted hother hreparse
  constructor
  · intro hperm image contextSHA256
    have hmem : ∀ t, t ∈ router.targets ↔ t ∈ rerouter.targets := by
      intro t
      rw [haccepted.mem, hreaccepted.mem]
      simp only [hperm.mem_iff]
    refine route_congr haccepted hreaccepted ?_ image
    intro digest _
    obtain ⟨selected, hselected, hleader⟩ := hreaccepted.leader digest
    rw [hselected]
    exact haccepted.selected_of_subset hreaccepted (fun t ht => (hmem t).1 ht) hselected
      ((hmem selected).2 hleader.mem)
  · intro hsub contextSHA256 digest selected hdigest hselected hkept
    have hstays := haccepted.selected_of_subset hreaccepted hsub hselected hkept
    refine ⟨hstays, ?_⟩
    intro image
    refine route_congr haccepted hreaccepted ?_ image
    intro normalized hnormalized
    rw [hdigest, Except.ok.injEq] at hnormalized
    subst hnormalized
    rw [hstays, hselected]

def sampleDecode : List Bytes → List Bytes
  | _ :: piece :: pieces => piece :: sampleDecode pieces
  | _ => []

def sampleNamed (text : Bytes) : Named :=
  let path := (text.dropWhile (· != 0x2F)).drop 1
  ⟨text.takeWhile (· != 0x2F), path.takeWhile (· != 0x3A), some ((path.dropWhile (· != 0x3A)).drop 1), none⟩

def sampleLib : RoutingLib where
  unmarshal raw := .ok (sampleDecode (split 0x22 raw))
  parseNormalizedNamed text := .ok (sampleNamed text)
  sum256 data := Vector.replicate 32 data.sum

def samplePool : Bytes := ascii "[\"r1.io/x\", \"r3.io\", \"r2.io\"]"

def sampleReordered : Bytes := ascii "[\"r3.io\", \"r2.io\", \"r1.io/x\"]"

def sampleFewer : Bytes := ascii "[\"r3.io\", \"r2.io\"]"

def sampleThree : RegistryTargetRouter :=
  ⟨[routingTarget (ascii "r1.io") (ascii "x"), routingTarget (ascii "r2.io") [], routingTarget (ascii "r3.io") []]⟩

def sampleTwo : RegistryTargetRouter := ⟨[routingTarget (ascii "r2.io") [], routingTarget (ascii "r3.io") []]⟩

set_option maxRecDepth 100000 in
theorem routing_is_canonical_sample :
    parseRoutingTargets sampleLib samplePool = .ok (some sampleThree) ∧
    (∃ router, parseRoutingTargets sampleLib sampleReordered = .ok (some router) ∧
      ∀ image contextSHA256, route sampleLib (some sampleThree) image contextSHA256 =
        route sampleLib (some router) image contextSHA256) ∧
    parseRoutingTargets sampleLib sampleFewer = .ok (some sampleTwo) ∧
    sampleTwo.selected sampleLib (List.replicate 64 0x61) = some (routingTarget (ascii "r3.io") []) ∧
    ∀ image, route sampleLib (some sampleTwo) image (List.replicate 64 0x61) =
      route sampleLib (some sampleThree) image (List.replicate 64 0x61) := by
  have hpool : parseRoutingTargets sampleLib samplePool = .ok (some sampleThree) := rfl
  have hreordered : parseRoutingTargets sampleLib sampleReordered = .ok (some sampleThree) := rfl
  have hfewer : parseRoutingTargets sampleLib sampleFewer = .ok (some sampleTwo) := rfl
  have hperm : (sampleDecode (split 0x22 samplePool)).Perm (sampleDecode (split 0x22 sampleReordered)) := by
    decide +kernel
  have hsub : sampleTwo.targets ⊆ sampleThree.targets := by decide +kernel
  have hdigest : normalizeContextSHA256 (List.replicate 64 0x61) = .ok (List.replicate 64 0x61) := rfl
  have hselected : sampleThree.selected sampleLib (List.replicate 64 0x61) =
      some (routingTarget (ascii "r3.io") []) := by decide +kernel
  have hkept : routingTarget (ascii "r3.io") [] ∈ sampleTwo.targets := by decide +kernel
  have hsame := (routing_is_canonical rfl hpool rfl hreordered).1 hperm
  have hstays := (routing_is_canonical rfl hfewer rfl hpool).2 hsub _ _ _ hdigest hselected hkept
  exact ⟨hpool, ⟨_, hreordered, hsame⟩, hfewer, hstays⟩

/-! ### Routing twice -/

def Below (pathPrefix path : Bytes) : Prop :=
  pathPrefix = [] ∨ path = pathPrefix ∨ pathPrefix ++ ascii "/" <+: path

instance (pathPrefix path : Bytes) : Decidable (Below pathPrefix path) := by
  unfold Below
  infer_instance

def routedPath (selected : RegistryRoutingTarget) (path : Bytes) : Bytes :=
  if Below selected.pathPrefix path then path else selected.pathPrefix ++ ascii "/" ++ path

def Named.suffix (named : Named) : Bytes :=
  (named.tag.map (ascii ":" ++ ·)).getD [] ++ (named.digest.map (ascii "@" ++ ·)).getD []

theorem routedImage_eq (selected : RegistryRoutingTarget) (named : Named) : routedImage selected named =
      selected.host ++ ascii "/" ++ routedPath selected named.path ++ named.suffix := by
  have hcondition : (!selected.pathPrefix.isEmpty && named.path != selected.pathPrefix &&
      !hasPrefix named.path (selected.pathPrefix ++ ascii "/")) = true ↔ ¬ Below selected.pathPrefix named.path := by
    rw [Bool.and_eq_true, Bool.and_eq_true, Bool.not_eq_true', Bool.not_eq_true', bne_iff_ne, Below, hasPrefix,
      ← Bool.not_eq_true, ← Bool.not_eq_true, List.isEmpty_iff, isPrefixOf_iff_prefix]
    tauto
  rw [routedImage, routedPath]
  by_cases hbelow : Below selected.pathPrefix named.path
  · rw [if_neg (fun h => hcondition.1 h hbelow), if_pos hbelow]
    rfl
  · rw [if_pos (hcondition.2 hbelow), if_neg hbelow]
    rfl

theorem routedPath_below (selected : RegistryRoutingTarget) (path : Bytes) :
    Below selected.pathPrefix (routedPath selected path) := by
  rw [routedPath]
  split_ifs with hbelow
  · exact hbelow
  · exact .inr (.inr (prefix_append _ _))

theorem route_ok {image contextSHA256 routed : Bytes}
    (hroute : route lib (some router) image contextSHA256 = .ok routed) :
    ∃ digest selected named, normalizeContextSHA256 contextSHA256 = .ok digest ∧
      router.selected lib digest = some selected ∧ lib.parseNormalizedNamed (trimSpace image) = .ok named ∧
      routed = routedImage selected named := by
  rw [route] at hroute
  split_ifs at hroute
  cases hdigest : normalizeContextSHA256 contextSHA256 with
  | error err =>
    rw [hdigest] at hroute
    cases hroute
  | ok digest =>
    cases hnamed : lib.parseNormalizedNamed (trimSpace image) with
    | error err =>
      rw [hdigest, hnamed] at hroute
      cases hroute
    | ok named =>
      cases hselected : router.selected lib digest with
      | none =>
        rw [hdigest, hnamed] at hroute
        simp only [bind, Except.bind, Except.mapError, hselected] at hroute
        cases hroute
      | some selected =>
        rw [hdigest, hnamed] at hroute
        simp only [bind, Except.bind, Except.mapError, hselected] at hroute
        exact ⟨digest, selected, named, rfl, hselected, rfl, (Except.ok.inj hroute).symm⟩

/-- A routed image is the image in the selected registry. -/
theorem route_rewrites_once {raw : Bytes} {router : RegistryTargetRouter}
    (hparse : parseRoutingTargets lib raw = .ok (some router))
    (hspace : ∀ text named, lib.parseNormalizedNamed text = .ok named → trimSpace text = text)
    {image contextSHA256 routed : Bytes} (hroute : route lib (some router) image contextSHA256 = .ok routed) :
    ∃ digest selected named, normalizeContextSHA256 contextSHA256 = .ok digest ∧ selected ∈ router.targets ∧
      router.selected lib digest = some selected ∧ lib.parseNormalizedNamed (trimSpace image) = .ok named ∧
      routed = selected.host ++ ascii "/" ++ routedPath selected named.path ++ named.suffix ∧
      (lib.parseNormalizedNamed routed =
          .ok ⟨selected.host, routedPath selected named.path, named.tag, named.digest⟩ →
        route lib (some router) routed contextSHA256 = .ok routed) := by
  obtain ⟨digest, selected, named, hdigest, hselected, hnamed, hrouted⟩ := route_ok hroute
  obtain ⟨prefixes, hdecoded⟩ := parseRoutingTargets_decoded hparse
  have haccepted := parseRoutingTargets_accepted hdecoded hparse
  obtain ⟨leader, hleader, hmem⟩ := haccepted.leader digest
  obtain rfl : leader = selected := Option.some.inj (hleader.symm.trans hselected)
  rw [routedImage_eq] at hrouted
  refine ⟨digest, leader, named, hdigest, hmem.mem, hselected, hnamed, hrouted, fun hrecovered => ?_⟩
  have hagain : routedImage leader ⟨leader.host, routedPath leader named.path, named.tag, named.digest⟩ = routed := by
    rw [routedImage_eq, hrouted]
    show leader.host ++ ascii "/" ++ routedPath leader (routedPath leader named.path) ++ named.suffix = _
    conv_lhs => rw [routedPath, if_pos (routedPath_below leader named.path)]
  rw [route, haccepted.nonempty, hspace _ _ hrecovered, hdigest, hrecovered]
  simp only [bind, Except.bind, Except.mapError, hselected]
  exact congrArg Except.ok hagain

def hubNamed (text : Bytes) : Named :=
  let first := text.takeWhile (· != 0x2F)
  let hosted := contains text (ascii "/") &&
    (contains first (ascii ".") || contains first (ascii ":") || first == ascii "localhost")
  let domain := if hosted then first else ascii "docker.io"
  let remainder := if hosted then text.drop (first.length + 1) else text
  let path := remainder.takeWhile (· != 0x3A)
  let tag := remainder.drop (path.length + 1)
  let official := domain == ascii "docker.io" && !contains path (ascii "/")
  ⟨domain, if official then ascii "library/" ++ path else path, if tag.isEmpty then none else some tag, none⟩

def hubLib : RoutingLib where
  unmarshal raw := .ok (sampleDecode (split 0x22 raw))
  parseNormalizedNamed text :=
    if trimSpace text = text then .ok (hubNamed text) else .error (ascii "invalid reference format")
  sum256 data := Vector.replicate 32 data.sum

def hubPool : Bytes := ascii "[\"docker.io\", \"a.io/team\"]"

def hubRouter : RegistryTargetRouter :=
  ⟨[routingTarget (ascii "a.io") (ascii "team"), routingTarget (ascii "docker.io") (ascii "library")]⟩

set_option maxRecDepth 100000 in
theorem route_rewrites_once_hub :
    route hubLib (some hubRouter) (ascii " r.io/teams/app:1") (List.replicate 64 0x61) =
        .ok (ascii "docker.io/library/teams/app:1") ∧
      route hubLib (some hubRouter) (ascii "docker.io/library/teams/app:1") (List.replicate 64 0x61) =
        .ok (ascii "docker.io/library/teams/app:1") := by
  have hparse : parseRoutingTargets hubLib hubPool = .ok (some hubRouter) := rfl
  have hspace : ∀ text named, hubLib.parseNormalizedNamed text = .ok named → trimSpace text = text := by
    intro text named hnamed
    by_contra hne
    have hfailed : hubLib.parseNormalizedNamed text = .error (ascii "invalid reference format") := if_neg hne
    rw [hfailed] at hnamed
    cases hnamed
  have hroute : route hubLib (some hubRouter) (ascii " r.io/teams/app:1") (List.replicate 64 0x61) =
      .ok (ascii "docker.io/library/teams/app:1") := by rfl
  obtain ⟨digest, selected, named, hdigest, _, hselected, hnamed, _, hagain⟩ := route_rewrites_once hparse hspace hroute
  have hdigest' : normalizeContextSHA256 (List.replicate 64 0x61) = .ok (List.replicate 64 0x61) := rfl
  obtain rfl : digest = List.replicate 64 0x61 := Except.ok.inj (hdigest.symm.trans hdigest')
  have hselected' : hubRouter.selected hubLib (List.replicate 64 0x61) =
      some (routingTarget (ascii "docker.io") (ascii "library")) := by rfl
  obtain rfl : selected = routingTarget (ascii "docker.io") (ascii "library") :=
    Option.some.inj (hselected.symm.trans hselected')
  have hnamed' : hubLib.parseNormalizedNamed (trimSpace (ascii " r.io/teams/app:1")) =
      .ok ⟨ascii "r.io", ascii "teams/app", some (ascii "1"), none⟩ := by rfl
  obtain rfl : named = ⟨ascii "r.io", ascii "teams/app", some (ascii "1"), none⟩ :=
    Except.ok.inj (hnamed.symm.trans hnamed')
  exact ⟨hroute, hagain (by rfl)⟩

end BuildkitService.Daemon
