import BuildkitService.Lib.Assoc
import BuildkitService.Lib.Files
import BuildkitService.Lib.Reference

/-!
# Checks of images in their registries

`Check` of `internal/builddaemon/registry.go`, the rules it reads, and the transport that filters
what it asks for.
-/

namespace BuildkitService.Daemon

open Strings List Prog

/-! ### Hosts -/

def normalizeRegistryHost (host : Bytes) : Bytes := toLower (trimSuffix (trimSpace host) (ascii "."))

def foldCase : Bytes → Bytes
  | [] => []
  | [a] => [lowerByte a]
  | [a, b] => if a == 0xC5 && b == 0xBF then [0x73] else lowerByte a :: foldCase [b]
  | a :: b :: c :: s =>
      if a == 0xC5 && b == 0xBF then 0x73 :: foldCase (c :: s)
      else if a == 0xE2 && b == 0x84 && c == 0xAA then 0x6B :: foldCase s
      else lowerByte a :: foldCase (b :: c :: s)

def cutLast (sep : UInt8) (s : Bytes) : Option (Bytes × Bytes) :=
  (cut sep s.reverse).map fun parts => (parts.2.reverse, parts.1.reverse)

def splitHostPort (s : Bytes) : Option (Bytes × Bytes) :=
  (cutLast 0x3A s).bind fun (before, port) =>
    match s with
    | 0x5B :: rest =>
        (cut 0x5D rest).bind fun (host, after) =>
          if before = 0x5B :: host ++ [0x5D] ∧ 0x5B ∉ rest ∧ 0x5D ∉ after then some (host, port) else none
    | _ => if 0x3A ∈ before ∨ 0x5B ∈ s ∨ 0x5D ∈ s then none else some (before, port)

inductive IP where
  | v4 (a b c d : UInt8)
  | v6 (bytes : Bytes)
  deriving DecidableEq, Repr

def IP.isLoopback : IP → Bool
  | .v4 a _ _ _ => a == 127
  | .v6 bytes => bytes == List.replicate 15 0 ++ [1]

structure NormalizedNamed where
  domain : Bytes
  path : Bytes
  tag : Option Bytes
  digested : Bool
  hdomain : Reference.registry domain = true

structure RegistryLib where
  parseNormalizedNamed : Bytes → Except GoError NormalizedNamed
  parseIP : Bytes → Option IP

def registryHostPart (registry : Bytes) : Bytes :=
  match splitHostPort registry with
  | some (host, _) => host
  | none => registry

def registryUsesPlainHTTP (lib : RegistryLib) (registry : Bytes) : Bool :=
  foldCase (registryHostPart registry) == ascii "localhost" ||
    (lib.parseIP (registryHostPart registry)).any IP.isLoopback

/-! ### References -/

inductive CheckError where
  | invalidReference (image reason : Bytes)
  | notAllowed (host : Bytes)
  | busy
  | failed (err : GoError)
  deriving DecidableEq, Repr

def CheckError.text : CheckError → Bytes
  | .invalidReference image reason => ascii "invalid image reference " ++ quote image ++ ascii ": " ++ reason
  | .notAllowed host => ascii "registry host " ++ quote host ++ ascii " is not allowed"
  | .busy => ascii "too many concurrent registry checks"
  | .failed err => err.text

def normalizeRegistryImageReference (lib : RegistryLib) (image : Bytes) : Except CheckError (Bytes × Bytes) :=
  let trimmed := trimSpace image
  let registry := trimmed.takeWhile (· != 0x2F)
  if registry.isEmpty || registry.length == trimmed.length then
    .error (.invalidReference image (ascii "a fully qualified registry/repository reference is required"))
  else if !registry.any (fun b => b == 0x2E || b == 0x3A) && registry != ascii "localhost" then
    .error (.invalidReference image (ascii "a fully qualified registry hostname is required"))
  else match lib.parseNormalizedNamed trimmed with
    | .error err => .error (.invalidReference image err.text)
    | .ok named =>
        if named.digested then .error (.invalidReference image (ascii "digest references are not supported"))
        else .ok (named.domain ++ ascii "/" ++ named.path ++ ascii ":" ++ named.tag.getD (ascii "latest"), named.domain)

/-! ### Rules -/

abbrev HostRules := List (Bytes × List Bytes)

def ruleHosts (hostsRaw : Bytes) : List Bytes :=
  ((split 0x7C hostsRaw).map normalizeRegistryHost).filter fun host => !host.isEmpty

def addRule (rules : HostRules) (item : Bytes) : HostRules :=
  match cut 0x3D item with
  | none => rules
  | some (name, hostsRaw) =>
      if (normalizeRegistryHost name).isEmpty || (ruleHosts hostsRaw).isEmpty then rules
      else Assoc.put (normalizeRegistryHost name) (ruleHosts hostsRaw) rules

def parseRegistryHostRules (raw : Bytes) : HostRules := (split 0x3B raw).foldl addRule []

/-! ### Requests -/

structure RegistryRequest where
  scheme : Bytes
  host : Bytes
  redacted : Bytes
  deriving DecidableEq, Repr

variable {ρ : Type}

abbrev RequestProg (ρ α : Type) := Prog RegistryRequest (fun _ => Except GoError ρ) α

structure RegistryCheckTransport where
  allowedHosts : List Bytes
  registryHost : Bytes
  allowPlainHTTP : Bool

def RegistryCheckTransport.roundTrip (t : RegistryCheckTransport) (req : RegistryRequest) :
    RequestProg ρ (Except GoError ρ) :=
  let requestHost := normalizeRegistryHost req.host
  let scheme := toLower req.scheme
  if requestHost ∉ t.allowedHosts then
    pure (.error (errorf (ascii "registry check refuses request to untrusted host " ++ quote requestHost)))
  else if scheme = ascii "https" then Prog.op req
  else if scheme = ascii "http" ∧ t.allowPlainHTTP = true ∧ normalizeRegistryHost req.host = t.registryHost then Prog.op req
  else pure (.error (errorf (ascii "registry check refuses insecure request to " ++ req.redacted)))

structure AuthConfig where
  registryToken : Bytes
  identityToken : Bytes
  username : Bytes
  password : Bytes

def registryCredentialHosts (host : Bytes) : List Bytes :=
  let more := if host = ascii "registry-1.docker.io" ∨ host = ascii "docker.io" then
    [ascii "docker.io", ascii "https://index.docker.io/v1/"] else []
  ((host :: more).filter fun candidate => !candidate.isEmpty).eraseDups

def credentials (getAuthConfig : Bytes → Except GoError AuthConfig) : List Bytes → Except GoError (Bytes × Bytes)
  | [] => .ok ([], [])
  | candidate :: candidates => do
      let auth ← getAuthConfig candidate
      if !auth.registryToken.isEmpty then .ok ([], auth.registryToken)
      else if !auth.identityToken.isEmpty then .ok ([], auth.identityToken)
      else if !auth.username.isEmpty || !auth.password.isEmpty then .ok (auth.username, auth.password)
      else credentials getAuthConfig candidates

structure ResolverOptions where
  credentials : Bytes → Except GoError (Bytes × Bytes)
  plainHTTP : Bool

structure ImageCheckResult where
  digest : Bytes
  mediaType : Bytes
  size : Int
  deriving DecidableEq, Repr

abbrev Resolver (ρ : Type) := ResolverOptions → Bytes → RequestProg ρ (Except GoError ImageCheckResult)

structure RegistryImageChecker where
  hostRules : HostRules
  busy : Bool
  config : Except GoError (Bytes → Except GoError AuthConfig)

def RegistryImageChecker.check (r : RegistryImageChecker) (lib : RegistryLib) (resolver : Resolver ρ) (image : Bytes) :
    RequestProg ρ (Except CheckError ImageCheckResult) :=
  match normalizeRegistryImageReference lib image with
  | .error err => pure (.error err)
  | .ok (normalized, registry) =>
      match r.hostRules.lookup (normalizeRegistryHost registry) with
      | none => pure (.error (.notAllowed registry))
      | some allowedHosts =>
          if r.busy then pure (.error .busy)
          else match r.config with
            | .error err => pure (.error (.failed (err.wrap (ascii "load docker config: "))))
            | .ok getAuthConfig => do
                let plainHTTP := registryUsesPlainHTTP lib registry
                let transport : RegistryCheckTransport := ⟨allowedHosts, normalizeRegistryHost registry, plainHTTP⟩
                let options := ⟨fun host => credentials getAuthConfig (registryCredentialHosts host), plainHTTP⟩
                match ← Prog.serve transport.roundTrip (resolver options normalized) with
                | .error err => pure (.error (.failed err))
                | .ok result => pure (.ok result)

/-! ### What the rules say -/

def RuleLists (raw registry host : Bytes) : Prop :=
  ∃ item ∈ split 0x3B raw, ∃ name hostsRaw, cut 0x3D item = some (name, hostsRaw) ∧
    normalizeRegistryHost name = normalizeRegistryHost registry ∧
    ∃ listed ∈ split 0x7C hostsRaw, normalizeRegistryHost listed = normalizeRegistryHost host

def HasRule (raw registry : Bytes) : Prop :=
  ∃ item ∈ split 0x3B raw, ∃ name hostsRaw, cut 0x3D item = some (name, hostsRaw) ∧
    normalizeRegistryHost name = normalizeRegistryHost registry ∧
    ∃ listed ∈ split 0x7C hostsRaw, normalizeRegistryHost listed ≠ []

def LocalRegistry (lib : RegistryLib) (registry : Bytes) : Prop :=
  toLower (registryHostPart registry) = ascii "localhost" ∨
    ∃ ip, lib.parseIP (registryHostPart registry) = some ip ∧ ip.isLoopback = true

def Permitted (lib : RegistryLib) (raw registry : Bytes) (req : RegistryRequest) : Prop :=
  RuleLists raw registry req.host ∧
    (toLower req.scheme = ascii "https" ∨
      toLower req.scheme = ascii "http" ∧ normalizeRegistryHost req.host = normalizeRegistryHost registry ∧
        LocalRegistry lib registry)

variable {raw registry : Bytes} {hosts : List Bytes} {lib : RegistryLib}

theorem rule_of_lookup {key : Bytes} (hlookup : (parseRegistryHostRules raw).lookup key = some hosts) :
    ∃ item ∈ split 0x3B raw, ∃ name hostsRaw, cut 0x3D item = some (name, hostsRaw) ∧ normalizeRegistryHost name = key ∧
      hosts = ruleHosts hostsRaw ∧ hosts ≠ [] := by
  rw [parseRegistryHostRules] at hlookup
  generalize split 0x3B raw = items at hlookup ⊢
  induction items using reverseRecOn with
  | nil => cases hlookup
  | append_singleton items item ih =>
    rw [foldl_append, foldl_cons, foldl_nil, addRule] at hlookup
    have hearlier (hlookup : (items.foldl addRule []).lookup key = some hosts) :
        ∃ item' ∈ items ++ [item], ∃ name hostsRaw, cut 0x3D item' = some (name, hostsRaw) ∧
          normalizeRegistryHost name = key ∧ hosts = ruleHosts hostsRaw ∧ hosts ≠ [] := by
      obtain ⟨item', hitem', hrule⟩ := ih hlookup
      exact ⟨item', mem_append_left [item] hitem', hrule⟩
    split at hlookup
    · exact hearlier hlookup
    · rename_i name hostsRaw hcut
      split_ifs at hlookup with hskip
      · exact hearlier hlookup
      · rw [Assoc.lookup_put] at hlookup
        split_ifs at hlookup with hkey
        · rw [Option.some.injEq] at hlookup
          refine ⟨item, mem_append_right _ (mem_singleton_self item), name, hostsRaw, hcut, ?_, hlookup.symm, ?_⟩
          · exact (beq_iff_eq.1 hkey).symm
          · rintro rfl
            simp [hlookup] at hskip
        · exact hearlier hlookup

theorem mem_ruleHosts {host hostsRaw : Bytes} (hmem : host ∈ ruleHosts hostsRaw) :
    host ≠ [] ∧ ∃ listed ∈ split 0x7C hostsRaw, normalizeRegistryHost listed = host := by
  obtain ⟨hlisted, hne⟩ := mem_filter.1 hmem
  refine ⟨?_, List.mem_map.1 hlisted⟩
  rintro rfl
  cases hne

theorem mem_registryHostPart {b : UInt8} (hb : b ∈ registryHostPart registry) : b ∈ registry := by
  rw [registryHostPart] at hb
  split at hb
  · rename_i host port hsplit
    rw [splitHostPort] at hsplit
    obtain ⟨⟨before, last⟩, hlast, hrest⟩ := Option.bind_eq_some_iff.1 hsplit
    obtain ⟨parts, hcut, hparts⟩ := Option.map_eq_some_iff.1 hlast
    cases hparts
    dsimp only at hrest
    split at hrest
    · obtain ⟨⟨inner, after⟩, hinner, hhost⟩ := Option.bind_eq_some_iff.1 hrest
      dsimp only at hhost
      split_ifs at hhost
      cases hhost
      rw [cut_eq_some hinner]
      exact mem_cons_of_mem _ (mem_append_left _ hb)
    · split_ifs at hrest
      cases hrest
      have hwhole : registry.reverse = parts.1 ++ 0x3A :: parts.2 := cut_eq_some hcut
      rw [← mem_reverse, hwhole]
      exact mem_append_right _ (mem_cons_of_mem _ (mem_reverse.1 hb))
  · exact hb

theorem foldCase_ascii {s : Bytes} (hs : ∀ a ∈ s, a < 0x80) : foldCase s = toLower s := by
  have hne {a b : UInt8} (ha : a < 0x80) (hb : 0x80 ≤ b) : (a == b) = false := beq_eq_false_iff_ne.2 (ne_of_high ha hb)
  rw [toLower_ascii hs]
  fun_induction foldCase s with
  | case1 | case2 => rfl
  | case3 a b hspecial | case5 a b c s hspecial | case6 a b c s _ hspecial =>
    rw [hne (hs a (by simp)) (by decide)] at hspecial
    cases hspecial
  | case4 a b _ ih | case7 a b c s _ _ ih =>
    rw [ih fun d hd => hs d (mem_cons_of_mem a hd)]
    rfl

theorem localRegistry_of_plainHTTP (hregistry : Reference.registry registry = true)
    (hplain : registryUsesPlainHTTP lib registry = true) : LocalRegistry lib registry := by
  have hascii : ∀ b ∈ registryHostPart registry, b < 0x80 := fun b hb =>
    ((Reference.printable_registry hregistry).plain b (mem_registryHostPart hb)).1
  rw [registryUsesPlainHTTP, Bool.or_eq_true, beq_iff_eq, foldCase_ascii hascii, Option.any_eq_true] at hplain
  exact hplain

theorem registry_of_normalize {image normalized : Bytes}
    (hnormalize : normalizeRegistryImageReference lib image = .ok (normalized, registry)) :
    Reference.registry registry = true := by
  rw [normalizeRegistryImageReference] at hnormalize
  split_ifs at hnormalize
  split at hnormalize
  · cases hnormalize
  · rename_i named _
    split_ifs at hnormalize
    cases hnormalize
    exact named.hdomain

/-! ### What reaches the base transport -/

theorem roundTrip_only {t : RegistryCheckTransport} (req : RegistryRequest) :
    Only (fun req => normalizeRegistryHost req.host ∈ t.allowedHosts ∧ (toLower req.scheme = ascii "https" ∨
      toLower req.scheme = ascii "http" ∧ t.allowPlainHTTP = true ∧ normalizeRegistryHost req.host = t.registryHost))
      (t.roundTrip req : RequestProg ρ (Except GoError ρ)) := by
  rw [RegistryCheckTransport.roundTrip]
  split_ifs with hhost hhttps hhttp
  · exact only_op ⟨hhost, .inl hhttps⟩
  · exact only_op ⟨hhost, .inr hhttp⟩
  · exact only_pure _
  · exact only_pure _

/-- No request leaves for a host that no rule lists. -/
theorem registry_check_confined (checker : RegistryImageChecker) (lib : RegistryLib) (resolver : Resolver ρ)
    (raw image : Bytes) :
    let check := { checker with hostRules := parseRegistryHostRules raw }.check lib resolver image
    (∀ err, normalizeRegistryImageReference lib image = .error err → Prog.Only (fun _ => False) check) ∧
    ∀ normalized registry, normalizeRegistryImageReference lib image = .ok (normalized, registry) →
      Prog.Only (Permitted lib raw registry) check ∧
      (¬ HasRule raw registry → Prog.Only (fun _ => False) check) := by
  intro check
  refine ⟨?_, ?_⟩
  · intro err herr
    simp only [check, RegistryImageChecker.check, herr]
    exact Prog.only_pure _
  · intro normalized registry hnormalize
    simp only [check, RegistryImageChecker.check, hnormalize]
    cases hlookup : (parseRegistryHostRules raw).lookup (normalizeRegistryHost registry) with
    | none => exact ⟨Prog.only_pure _, fun _ => Prog.only_pure _⟩
    | some allowedHosts =>
      obtain ⟨item, hitem, name, hostsRaw, hcut, hname, rfl, hhosts⟩ := rule_of_lookup hlookup
      have hrule : HasRule raw registry := by
        obtain ⟨host, hhost⟩ := List.exists_mem_of_ne_nil _ hhosts
        obtain ⟨hne, listed, hlisted, rfl⟩ := mem_ruleHosts hhost
        exact ⟨item, hitem, name, hostsRaw, hcut, hname, listed, hlisted, hne⟩
      refine ⟨?_, fun hnone => absurd hrule hnone⟩
      dsimp only
      split_ifs
      · exact Prog.only_pure _
      · cases checker.config with
        | error err => exact Prog.only_pure _
        | ok getAuthConfig =>
          refine Prog.Only.bind (Prog.only_serve (fun req => ?_) _) ?_
          · refine (roundTrip_only req).mono ?_
            rintro req ⟨hhost, hscheme⟩
            obtain ⟨_, listed, hlisted, heq⟩ := mem_ruleHosts hhost
            refine ⟨⟨item, hitem, name, hostsRaw, hcut, hname, listed, hlisted, heq⟩, hscheme.imp_right ?_⟩
            rintro ⟨hhttp, hplain, hsame⟩
            exact ⟨hhttp, hsame, localRegistry_of_plainHTTP (registry_of_normalize hnormalize) hplain⟩
          · intro result
            cases result with
            | error | ok => exact Prog.only_pure _

end BuildkitService.Daemon
