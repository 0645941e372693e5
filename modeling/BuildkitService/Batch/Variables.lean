import BuildkitService.Lib.Strings
import BuildkitService.Lib.Template
import Mathlib.Data.List.MinMax
import Mathlib.Data.List.Sort

/-!
# Build variables

`internal/buildbatch/build_variables.go`.
-/

namespace BuildkitService.Batch

open Strings List

abbrev BuildVars := List (Bytes × Bytes)

def BuildVars.keys (vars : BuildVars) : List Bytes := vars.map Prod.fst

def variablePrefix : Bytes := ascii "BUILDCTL_BATCH_"

/-! ### Parsing -/

def BuildVars.set (vars : BuildVars) (key value : Bytes) : BuildVars :=
  vars.filter (fun entry => entry.1 != key) ++ [(key, value)]

def parseBuildVariable (vars : BuildVars) (item : Bytes) : Except Bytes BuildVars :=
  match cut 0x3D item with
  | none => .error (ascii "invalid --var " ++ quote item ++ ascii ", expected KEY=value")
  | some (name, value) =>
      let key := trimSpace name
      if key.isEmpty then .error (ascii "invalid --var " ++ quote item ++ ascii ", key must not be empty")
      else if !hasPrefix key variablePrefix then
        .error (ascii "invalid --var " ++ quote item ++ ascii ", key must start with BUILDCTL_BATCH_")
      else .ok (vars.set key value)

def parseBuildVariables (items : List Bytes) : Except Bytes BuildVars := items.foldlM parseBuildVariable []

/-! ### Unresolved references -/

def nameByte (b : UInt8) : Bool :=
  (0x41 ≤ b && b ≤ 0x5A) || (0x61 ≤ b && b ≤ 0x7A) || (0x30 ≤ b && b ≤ 0x39) || b == 0x5F

def buildctlBatchVarPattern : Bytes → Option (Bytes × Nat)
  | 0x24 :: s =>
      let brace := if s.head? = some 0x7B then 1 else 0
      let s := s.drop brace
      let run := (s.drop variablePrefix.length).takeWhile nameByte
      if hasPrefix s variablePrefix && !run.isEmpty then
        let name := variablePrefix ++ run
        let close := if (s.drop name.length).head? = some 0x7D then 1 else 0
        some (name, 1 + brace + name.length + close)
      else none
  | _ => none

def unresolvedFrom : Nat → Bytes → List Bytes
  | _, [] => []
  | n + 1, _ :: s => unresolvedFrom n s
  | 0, b :: s => match buildctlBatchVarPattern (b :: s) with
    | some (name, length) => name :: unresolvedFrom (length - 1) s
    | none => unresolvedFrom 0 s

def findUnresolvedBuildVariables (content : Bytes) : List Bytes := unresolvedFrom 0 content

def uniqueFrom (last : Bytes) : List Bytes → List Bytes
  | [] => []
  | value :: values => if value == last then uniqueFrom last values else value :: uniqueFrom value values

def uniqueStrings (values : List Bytes) : List Bytes := uniqueFrom [] values

/-! ### Replacing -/

def dollarToken (key : Bytes) : Bytes := ascii "$" ++ key

def braceToken (key : Bytes) : Bytes := ascii "$\x7b" ++ key ++ ascii "\x7d"

def replaceVariable (content : Bytes) (entry : Bytes × Bytes) : Bytes :=
  let content := Template.replaceAll content (braceToken entry.1) entry.2
  Template.replaceAll content (dollarToken entry.1) entry.2

def checkResolved (path : Bytes) (vars : BuildVars) (content : Bytes) : Except Bytes Bytes :=
  let missing := (findUnresolvedBuildVariables content).filter fun token => !vars.keys.contains token
  if missing.isEmpty then .ok content
  else
    let sorted := missing.insertionSort fun a b => less b a = false
    .error (path ++ ascii " contains unresolved build variable(s): " ++
      (ascii ", ").intercalate (uniqueStrings sorted))

def replaceBuildVariables (raw path : Bytes) (vars : BuildVars) : Except Bytes Bytes :=
  if vars.isEmpty then .ok raw else checkResolved path vars (vars.foldl replaceVariable raw)

/-! ### What is meant -/

def BuildVars.tokens (vars : BuildVars) : List Bytes :=
  vars.keys.flatMap fun key => [dollarToken key, braceToken key]

def readReference (vars : BuildVars) (s : Bytes) : Option Bytes :=
  (vars.tokens.filter (hasPrefix s)).argmax List.length

def BuildVars.value (vars : BuildVars) (token : Bytes) : Option Bytes :=
  (vars.find? fun entry => token == dollarToken entry.1 || token == braceToken entry.1).map Prod.snd

def substitute (vars : BuildVars) (content : Bytes) : Bytes :=
  Template.render vars.value (Template.parse (readReference vars) content)

def meantResult (raw path : Bytes) (vars : BuildVars) : Except Bytes Bytes :=
  checkResolved path vars (substitute vars raw)

/-! ### Accepted variables -/

structure Accepted (vars : BuildVars) : Prop where
  named : ∀ key ∈ vars.keys, variablePrefix <+: key
  nodup : vars.keys.Nodup

variable {key token : Bytes} {vars : BuildVars}

theorem Accepted.set (haccepted : Accepted vars) (hkey : variablePrefix <+: key) (value : Bytes) :
    Accepted (vars.set key value) := by
  have hkeys : (vars.set key value).keys = vars.keys.filter (fun other => other != key) ++ [key] := by
    rw [BuildVars.set, BuildVars.keys, BuildVars.keys, map_append, List.filter_map]
    rfl
  constructor
  · intro other hother
    rw [hkeys, mem_append, mem_singleton] at hother
    rcases hother with hother | rfl
    · exact haccepted.named other (mem_filter.1 hother).1
    · exact hkey
  · rw [hkeys]
    refine (haccepted.nodup.filter _).append (nodup_singleton key) ?_
    intro other hother hlast
    rw [mem_singleton] at hlast
    have hne := (mem_filter.1 hother).2
    rw [hlast, bne_self_eq_false] at hne
    cases hne

theorem parseBuildVariables_accepted {items : List Bytes} (hparse : parseBuildVariables items = .ok vars) :
    Accepted vars := by
  have hloop : ∀ (items : List Bytes) (before : BuildVars), Accepted before →
      items.foldlM parseBuildVariable before = .ok vars → Accepted vars := by
    intro items
    induction items with
    | nil =>
      intro before hbefore hok
      cases hok
      exact hbefore
    | cons item items ih =>
      intro before hbefore hok
      rw [foldlM_cons] at hok
      cases hone : parseBuildVariable before item with
      | error err =>
        rw [hone] at hok
        cases hok
      | ok after =>
        rw [hone] at hok
        refine ih after ?_ hok
        unfold parseBuildVariable at hone
        split at hone
        · cases hone
        · dsimp only at hone
          split_ifs at hone with _ hpre
          cases hone
          rw [Bool.not_eq_true', Bool.not_eq_false] at hpre
          exact hbefore.set (List.isPrefixOf_iff_prefix.1 hpre) _
  exact hloop items [] ⟨by simp [BuildVars.keys], nodup_nil⟩ hparse

theorem Accepted.perm {order : BuildVars} (haccepted : Accepted vars) (hperm : order.Perm vars) :
    Accepted order := by
  have hkeys : order.keys.Perm vars.keys := hperm.map Prod.fst
  constructor
  · intro key hkey
    exact haccepted.named key (hkeys.mem_iff.1 hkey)
  · exact hkeys.nodup_iff.2 haccepted.nodup

/-! ### Tokens -/

theorem mem_tokens :
    token ∈ vars.tokens ↔ ∃ key ∈ vars.keys, token = dollarToken key ∨ token = braceToken key := by
  simp only [BuildVars.tokens, mem_flatMap, mem_cons, not_mem_nil, or_false]

theorem braceToken_eq (key : Bytes) : braceToken key = 0x24 :: 0x7B :: (key ++ [0x7D]) := rfl

theorem dollar_brace_apart (hkey : variablePrefix <+: key) (other : Bytes) :
    ¬ dollarToken key <+: braceToken other ∧ ¬ braceToken other <+: dollarToken key := by
  obtain ⟨rest, rfl⟩ := hkey
  constructor
  · intro hpre
    have hname := (cons_prefix_cons.1 hpre).2
    exact absurd (cons_prefix_cons.1 hname).1 (by decide)
  · intro hpre
    have hname := (cons_prefix_cons.1 hpre).2
    exact absurd (cons_prefix_cons.1 hname).1 (by decide)

theorem braceToken_starts {other : Bytes} (hpre : braceToken key <+: braceToken other) : key <+: other := by
  rw [braceToken_eq, braceToken_eq, cons_prefix_cons, cons_prefix_cons] at hpre
  have hkey : key <+: other ++ [0x7D] := (prefix_append _ _).trans hpre.2.2
  refine prefix_of_prefix_length_le hkey (prefix_append _ _) ?_
  have hlength := hpre.2.2.length_le
  rw [length_append, length_append] at hlength
  exact Nat.le_of_add_le_add_right hlength

theorem key_of_token {other : Bytes} (hkey : variablePrefix <+: key) (hother : variablePrefix <+: other)
    (htoken : token = dollarToken key ∨ token = braceToken key)
    (htoken' : token = dollarToken other ∨ token = braceToken other) : key = other := by
  rcases htoken with rfl | rfl
  · rcases htoken' with heq | heq
    · exact (cons.inj heq).2
    · exact absurd (heq ▸ prefix_rfl) (dollar_brace_apart hkey other).1
  · rcases htoken' with heq | heq
    · exact absurd (heq ▸ prefix_rfl) (dollar_brace_apart hother key).1
    · exact (braceToken_starts (heq ▸ prefix_rfl)).eq_of_length
        (by have hlength := congrArg length heq
            simpa [braceToken_eq] using hlength)

theorem value_eq_some_iff (haccepted : Accepted vars) {value : Bytes} : vars.value token = some value ↔
      ∃ key, (key, value) ∈ vars ∧ (token = dollarToken key ∨ token = braceToken key) := by
  constructor
  · intro hvalue
    obtain ⟨entry, hfind, rfl⟩ := Option.map_eq_some_iff.1 hvalue
    have htoken := find?_some hfind
    rw [Bool.or_eq_true, beq_iff_eq, beq_iff_eq] at htoken
    exact ⟨entry.1, mem_of_find?_eq_some hfind, htoken⟩
  · rintro ⟨key, hmem, htoken⟩
    have hfound : (vars.find? fun entry => token == dollarToken entry.1 || token == braceToken entry.1).isSome := by
      rw [find?_isSome]
      refine ⟨(key, value), hmem, ?_⟩
      rw [Bool.or_eq_true, beq_iff_eq, beq_iff_eq]
      exact htoken
    obtain ⟨entry, hfind⟩ := Option.isSome_iff_exists.1 hfound
    have htoken' := find?_some hfind
    rw [Bool.or_eq_true, beq_iff_eq, beq_iff_eq] at htoken'
    have hentry := mem_of_find?_eq_some hfind
    have hkey : entry.1 = key := key_of_token (haccepted.named _ (List.mem_map_of_mem hentry))
      (haccepted.named _ (List.mem_map_of_mem hmem)) htoken' htoken
    have hvalue : entry = (key, value) :=
      inj_on_of_nodup_map haccepted.nodup hentry hmem hkey
    rw [BuildVars.value, hfind, hvalue]
    rfl

theorem value_perm {order : BuildVars} (haccepted : Accepted vars) (hperm : order.Perm vars) :
    order.value = vars.value := by
  funext token
  apply Option.ext
  intro value
  rw [value_eq_some_iff haccepted, value_eq_some_iff (haccepted.perm hperm)]
  simp only [hperm.mem_iff]

end BuildkitService.Batch
