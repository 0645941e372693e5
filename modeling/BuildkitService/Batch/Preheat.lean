import BuildkitService.Lib.Strings

/-!
# The URL that an image is preheated from

`buildPreheatURL` of `internal/buildbatch/preheat.go` takes an image reference apart by the first
slash and the last `@`, or else the last colon.
-/

namespace BuildkitService.Batch

open Strings List Option

/-! ### The function -/

def lastIndexByte (b : UInt8) : Bytes → Option Nat
  | [] => none
  | a :: s =>
      match lastIndexByte b s with
      | some i => some (i + 1)
      | none => if a = b then some 0 else none

def goIndex (i : Option Nat) : Int := i.elim (-1) Nat.cast

def isRegistry (registry : Bytes) : Bool :=
  contains registry (ascii ".") || contains registry (ascii ":") || registry == ascii "localhost"

def splitReference (remainder : Bytes) : Bytes × Bytes :=
  match lastIndexByte 0x40 remainder with
  | some pos => (remainder.take pos, remainder.drop (pos + 1))
  | none =>
      let lastSlash := lastIndexByte 0x2F remainder
      match lastIndexByte 0x3A remainder with
      | some lastColon =>
          if goIndex lastSlash < lastColon then (remainder.take lastColon, remainder.drop (lastColon + 1))
          else (remainder, ascii "latest")
      | none => (remainder, ascii "latest")

def normalizedURL (target normalized : Bytes) : Except Bytes Bytes :=
  let unqualified := ascii "preheat target " ++ quote target ++ ascii " is not a fully qualified image reference"
  let firstSlash := goIndex (normalized.findIdx? fun b => b == 0x2F)
  if firstSlash ≤ 0 ∨ firstSlash = normalized.length - 1 then .error unqualified
  else
    let registry := normalized.take firstSlash.toNat
    let remainder := normalized.drop (firstSlash.toNat + 1)
    if !isRegistry registry then .error unqualified
    else
      let (repo, reference) := splitReference remainder
      if repo.isEmpty || reference.isEmpty then
        .error (ascii "preheat target " ++ quote target ++ ascii " is not a valid image reference")
      else .ok (ascii "https://" ++ registry ++ ascii "/v2/" ++ repo ++ ascii "/manifests/" ++ reference)

def buildPreheatURL (target : Bytes) : Except Bytes Bytes :=
  let trimmed := trimSpace target
  if trimmed.isEmpty then .error (ascii "preheat target is empty")
  else if hasPrefix trimmed (ascii "http://") || hasPrefix trimmed (ascii "https://") then .ok trimmed
  else normalizedURL target (trimPrefix (trimPrefix trimmed (ascii "docker://")) (ascii "oci://"))

/-! ### References -/

inductive Scheme where
  | none
  | docker
  | oci
  deriving DecidableEq, Repr

def Scheme.text : Scheme → Bytes
  | .none => []
  | .docker => ascii "docker://"
  | .oci => ascii "oci://"

structure ImageRef where
  scheme : Scheme
  registry : Option Bytes
  path : Bytes
  tag : Option Bytes
  digest : Option Bytes
  deriving DecidableEq, Repr

namespace ImageRef

def behind (separator : String) : Option Bytes → Bytes
  | none => []
  | some part => ascii separator ++ part

def registryText (r : ImageRef) : Bytes := (r.registry.map fun registry => registry ++ ascii "/").getD []

def text (r : ImageRef) : Bytes :=
  r.scheme.text ++ (r.registryText ++ (r.path ++ (behind ":" r.tag ++ behind "@" r.digest)))

structure WellFormed (r : ImageRef) : Prop where
  plain : ∀ b ∈ r.text, b < 0x80 ∧ asciiSpace b = false
  registry : ∀ registry, r.registry = some registry →
    registry ≠ [] ∧ 0x2F ∉ registry ∧ registry.getLast? ≠ some 0x3A ∧ isRegistry registry = true
  unqualified : r.registry = none → ∀ front back, r.path = front ++ 0x2F :: back → 0x2F ∉ front → isRegistry front = false
  path : 0x3A ∉ r.path ∧ 0x40 ∉ r.path
  tag : ∀ tag, r.tag = some tag → 0x2F ∉ tag ∧ 0x3A ∉ tag ∧ 0x40 ∉ tag
  digest : ∀ digest, r.digest = some digest → 0x2F ∉ digest ∧ 0x40 ∉ digest

def manifestURL (r : ImageRef) : Option Bytes :=
  r.registry.bind fun registry =>
    if r.path = [] ∨ r.tag = some [] ∨ r.digest = some [] then none
    else some (ascii "https://" ++ registry ++ ascii "/v2/" ++ r.path ++ ascii "/manifests/" ++
      (r.digest.or r.tag).getD (ascii "latest"))

end ImageRef

/-! ### Last occurrences -/

section LastIndex

variable {b : UInt8} {s t : Bytes}

theorem lastIndexByte_none (hb : b ∉ s) : lastIndexByte b s = none := by
  induction s with
  | nil => rfl
  | cons a s ih =>
    rw [mem_cons, not_or] at hb
    rw [lastIndexByte, ih hb.2]
    exact if_neg (Ne.symm hb.1)

theorem lastIndexByte_append (hb : b ∉ t) : lastIndexByte b (s ++ t) = lastIndexByte b s := by
  induction s with
  | nil => exact lastIndexByte_none hb
  | cons a s ih => rw [cons_append, lastIndexByte, lastIndexByte, ih]

theorem lastIndexByte_separator (hb : b ∉ t) : lastIndexByte b (s ++ b :: t) = some s.length := by
  induction s with
  | nil =>
    rw [nil_append, lastIndexByte, lastIndexByte_none hb]
    exact if_pos rfl
  | cons a s ih => rw [cons_append, lastIndexByte, ih, length_cons]

theorem lastIndexByte_lt : goIndex (lastIndexByte b s) < s.length := by
  induction s with
  | nil => exact Int.negSucc_lt_zero 0
  | cons a s ih =>
    rw [lastIndexByte]
    cases hlast : lastIndexByte b s with
    | some i =>
      rw [hlast] at ih
      simp only [goIndex, elim_some, length_cons] at ih ⊢
      omega
    | none =>
      split_ifs
      · simp only [goIndex, elim_some, length_cons]
        omega
      · simp only [goIndex, elim_none, length_cons]
        omega

end LastIndex

variable {back front : Bytes}

theorem findIdx_slash (hfront : 0x2F ∉ front) :
    (front ++ 0x2F :: back).findIdx? (fun b => b == 0x2F) = some front.length := by
  induction front with
  | nil => rfl
  | cons a front ih =>
    rw [mem_cons, not_or] at hfront
    rw [cons_append, findIdx?_cons, beq_false_of_ne (Ne.symm hfront.1), ih hfront.2]
    rfl

theorem first_slash_inj {front' back' : Bytes} (hfront : 0x2F ∉ front) (hfront' : 0x2F ∉ front')
    (heq : front ++ 0x2F :: back = front' ++ 0x2F :: back') : front = front' ∧ back = back' := by
  have hlength : (front ++ 0x2F :: back).findIdx? (fun b => b == 0x2F) = some front.length := findIdx_slash hfront
  rw [heq, findIdx_slash hfront'] at hlength
  obtain ⟨hsame, hrest⟩ := append_inj heq (Option.some.inj hlength).symm
  exact ⟨hsame, (cons.inj hrest).2⟩

/-! ### What is behind the registry -/

namespace ImageRef

variable {r : ImageRef}

def body (r : ImageRef) : Bytes := r.registryText ++ (r.path ++ (behind ":" r.tag ++ behind "@" r.digest))

section

variable (hwf : r.WellFormed)

include hwf

theorem WellFormed.split_digest {digest : Bytes} (hdigest : r.digest = some digest) :
    splitReference (r.path ++ (behind ":" r.tag ++ behind "@" r.digest)) = (r.path ++ behind ":" r.tag, digest) := by
  have htext : r.path ++ (behind ":" r.tag ++ behind "@" r.digest) = (r.path ++ behind ":" r.tag) ++ 0x40 :: digest := by
    rw [hdigest, ← append_assoc]
    rfl
  rw [htext, splitReference, lastIndexByte_separator (hwf.digest digest hdigest).2]
  dsimp only
  rw [take_left, ← drop_drop, drop_left]
  rfl

theorem WellFormed.split_tag {tag : Bytes} (htag : r.tag = some tag) (hdigest : r.digest = none) :
    splitReference (r.path ++ (behind ":" r.tag ++ behind "@" r.digest)) = (r.path, tag) := by
  obtain ⟨hslash, hcolon, hat⟩ := hwf.tag tag htag
  have htext : r.path ++ (behind ":" r.tag ++ behind "@" r.digest) = r.path ++ 0x3A :: tag := by
    rw [hdigest, htag]
    exact congrArg (r.path ++ ·) (append_nil _)
  have hnone : 0x40 ∉ r.path ++ 0x3A :: tag := by
    rw [mem_append, mem_cons, not_or, not_or]
    exact ⟨hwf.path.2, by decide, hat⟩
  have hlast : goIndex (lastIndexByte 0x2F (r.path ++ 0x3A :: tag)) < r.path.length := by
    rw [lastIndexByte_append]
    · exact lastIndexByte_lt
    · rw [mem_cons, not_or]
      exact ⟨by decide, hslash⟩
  rw [htext, splitReference, lastIndexByte_none hnone]
  dsimp only
  rw [lastIndexByte_separator hcolon]
  dsimp only
  rw [if_pos hlast, take_left, ← drop_drop, drop_left]
  rfl

theorem WellFormed.split_none (htag : r.tag = none) (hdigest : r.digest = none) :
    splitReference (r.path ++ (behind ":" r.tag ++ behind "@" r.digest)) = (r.path, ascii "latest") := by
  have htext : r.path ++ (behind ":" r.tag ++ behind "@" r.digest) = r.path := by
    rw [hdigest, htag]
    exact append_nil _
  rw [htext, splitReference, lastIndexByte_none hwf.path.2]
  dsimp only
  rw [lastIndexByte_none hwf.path.1]

theorem WellFormed.slash_in_path (hregistry : r.registry = none)
    (hbody : r.body = front ++ 0x2F :: back) (hfront : 0x2F ∉ front) :
    ∃ rest, r.path = front ++ 0x2F :: rest := by
  have hnone : 0x2F ∉ behind ":" r.tag ++ behind "@" r.digest := by
    rw [mem_append, not_or]
    constructor
    · cases htag : r.tag with
      | none => exact not_mem_nil
      | some tag =>
        rw [behind, mem_append, not_or]
        exact ⟨by decide, (hwf.tag tag htag).1⟩
    · cases hdigest : r.digest with
      | none => exact not_mem_nil
      | some digest =>
        rw [behind, mem_append, not_or]
        exact ⟨by decide, (hwf.digest digest hdigest).1⟩
  have htext : r.body = r.path ++ (behind ":" r.tag ++ behind "@" r.digest) := by
    rw [body, registryText, hregistry]
    rfl
  have hmem : 0x2F ∈ r.path := by
    have hall : 0x2F ∈ r.body := by
      rw [hbody]
      exact mem_append_right _ mem_cons_self
    rw [htext, mem_append] at hall
    exact hall.resolve_right hnone
  obtain ⟨first, rest, hpath, hfirst⟩ := eq_append_cons_of_mem hmem
  rw [htext, hpath, append_assoc, cons_append] at hbody
  obtain ⟨rfl, _⟩ := first_slash_inj hfirst hfront hbody
  exact ⟨rest, hpath⟩

end

theorem body_registry {registry : Bytes} (hregistry : r.registry = some registry) :
    r.body = registry ++ 0x2F :: (r.path ++ (behind ":" r.tag ++ behind "@" r.digest)) := by
  rw [body, registryText, hregistry, map_some, getD_some, append_assoc]
  rfl

theorem WellFormed.not_scheme (hwf : r.WellFormed) {word : Bytes} (hword : 0x2F ∉ word) :
    ¬ word ++ ascii "://" <+: r.body := by
  rintro ⟨back, hback⟩
  have hbody : r.body = (word ++ ascii ":") ++ 0x2F :: (0x2F :: back) := by
    rw [← hback, append_assoc, append_assoc]
    rfl
  have hfront : 0x2F ∉ word ++ ascii ":" := by
    rw [mem_append, not_or]
    exact ⟨hword, by decide⟩
  cases hregistry : r.registry with
  | none =>
    obtain ⟨rest, hrest⟩ := hwf.slash_in_path hregistry hbody hfront
    refine hwf.path.1 ?_
    rw [hrest]
    exact mem_append_left _ (mem_append_right _ mem_cons_self)
  | some registry =>
    obtain ⟨_, hslash, hport, _⟩ := hwf.registry registry hregistry
    rw [body_registry hregistry] at hbody
    obtain ⟨rfl, _⟩ := first_slash_inj hslash hfront hbody
    exact hport getLast?_concat

theorem WellFormed.normalized (hwf : r.WellFormed) :
    hasPrefix r.text (ascii "http://") = false ∧ hasPrefix r.text (ascii "https://") = false ∧
      trimPrefix (trimPrefix r.text (ascii "docker://")) (ascii "oci://") = r.body := by
  have hnot : ∀ word : Bytes, 0x2F ∉ word → ¬ word ++ ascii "://" <+: r.body := fun word hword => hwf.not_scheme hword
  have hoci : trimPrefix r.body (ascii "oci://") = r.body := trimPrefix_of_not (hnot (ascii "oci") (by decide))
  have hdocker : trimPrefix r.body (ascii "docker://") = r.body := trimPrefix_of_not (hnot (ascii "docker") (by decide))
  have htext : r.text = r.scheme.text ++ r.body := rfl
  rw [htext]
  cases r.scheme with
  | none =>
    rw [Scheme.text, nil_append, hasPrefix, hasPrefix, ← Bool.not_eq_true, ← Bool.not_eq_true,
      isPrefixOf_iff_prefix, isPrefixOf_iff_prefix, hdocker, hoci]
    exact ⟨hnot (ascii "http") (by decide), hnot (ascii "https") (by decide), rfl⟩
  | docker =>
    rw [Scheme.text, trimPrefix_append, hoci]
    exact ⟨rfl, rfl, rfl⟩
  | oci =>
    have hdocker : trimPrefix (ascii "oci://" ++ r.body) (ascii "docker://") = ascii "oci://" ++ r.body := rfl
    rw [Scheme.text, hdocker, trimPrefix_append]
    exact ⟨rfl, rfl, rfl⟩

theorem WellFormed.build_eq (hwf : r.WellFormed) :
    (buildPreheatURL r.text).toOption = (normalizedURL r.text r.body).toOption := by
  obtain ⟨hhttp, hhttps, hbody⟩ := hwf.normalized
  rw [buildPreheatURL, trimSpace_of_plain hwf.plain, hhttp, hhttps, hbody, Bool.or_self, if_neg Bool.false_ne_true]
  split_ifs with hempty
  · -- the empty text has no slash either
    have hnil : r.body = [] := (append_eq_nil_iff.1 (List.isEmpty_iff.1 hempty)).2
    rw [hnil]
    rfl
  · rfl

theorem normalizedURL_at_slash (target : Bytes) (hfront : 0x2F ∉ front) :
    (normalizedURL target (front ++ 0x2F :: back)).toOption =
      if front = [] ∨ back = [] ∨ isRegistry front = false then none
      else if (splitReference back).1 = [] ∨ (splitReference back).2 = [] then none
      else some (ascii "https://" ++ front ++ ascii "/v2/" ++ (splitReference back).1 ++ ascii "/manifests/" ++
        (splitReference back).2) := by
  have hindex : goIndex ((front ++ 0x2F :: back).findIdx? fun b => b == 0x2F) = front.length := by
    rw [findIdx_slash hfront]
    rfl
  have hends : ((front.length : Int) ≤ 0 ∨ (front.length : Int) = (front ++ 0x2F :: back).length - 1) ↔
      front = [] ∨ back = [] := by
    rw [← length_eq_zero_iff, ← length_eq_zero_iff, length_append, length_cons]
    omega
  rw [normalizedURL, hindex]
  dsimp only
  rw [Int.toNat_natCast, take_left, ← drop_drop, drop_left, drop_one, tail_cons]
  by_cases hempty : front = [] ∨ back = []
  · rw [if_pos (hends.2 hempty), if_pos (hempty.imp id Or.inl)]
    rfl
  · rw [if_neg (mt hends.1 hempty)]
    rw [not_or] at hempty
    cases hregistered : isRegistry front with
    | false =>
      rw [if_pos (Or.inr (Or.inr rfl))]
      rfl
    | true =>
      have hqualified : ¬ (front = [] ∨ back = [] ∨ true = false) := by
        rw [not_or, not_or]
        exact ⟨hempty.1, hempty.2, Bool.noConfusion⟩
      rw [if_neg hqualified, Bool.not_true, if_neg Bool.false_ne_true]
      obtain ⟨repo, reference⟩ := splitReference back
      simp only [Bool.or_eq_true, List.isEmpty_iff]
      split_ifs
      · rfl
      · rfl

theorem WellFormed.unqualified_error (hwf : r.WellFormed) (hregistry : r.registry = none) :
    (buildPreheatURL r.text).toOption = none := by
  rw [hwf.build_eq]
  by_cases hslash : 0x2F ∈ r.body
  · obtain ⟨front, back, hbody, hfront⟩ := eq_append_cons_of_mem hslash
    obtain ⟨rest, hpath⟩ := hwf.slash_in_path hregistry hbody hfront
    rw [hbody, normalizedURL_at_slash _ hfront, if_pos (.inr (.inr (hwf.unqualified hregistry front rest hpath hfront)))]
  · have hnone : r.body.findIdx? (fun b => b == 0x2F) = none := by
      rw [findIdx?_eq_none_iff]
      intro b hb
      rw [beq_eq_false_iff_ne]
      rintro rfl
      exact hslash hb
    rw [normalizedURL, hnone]
    rfl

theorem WellFormed.qualified (hwf : r.WellFormed) {registry : Bytes} (hregistry : r.registry = some registry)
    {repo reference : Bytes}
    (hsplit : splitReference (r.path ++ (behind ":" r.tag ++ behind "@" r.digest)) = (repo, reference)) :
    (buildPreheatURL r.text).toOption = if repo = [] ∨ reference = [] then none
      else some (ascii "https://" ++ registry ++ ascii "/v2/" ++ repo ++ ascii "/manifests/" ++ reference) := by
  obtain ⟨hne, hslash, _, hregistered⟩ := hwf.registry registry hregistry
  rw [hwf.build_eq, body_registry hregistry, normalizedURL_at_slash _ hslash, hsplit]
  by_cases hnil : r.path ++ (behind ":" r.tag ++ behind "@" r.digest) = []
  · rw [hnil] at hsplit
    obtain ⟨rfl, _⟩ := Prod.mk.inj hsplit
    rw [if_pos (.inr (.inl hnil)), if_pos (.inl rfl)]
  · rw [if_neg]
    rw [hregistered]
    simp [hne, hnil]

end ImageRef

/-- The URL is that of the manifest unless there are a tag and a digest. -/
theorem preheat_url_iff (r : ImageRef) (hwf : r.WellFormed) :
    (buildPreheatURL r.text).toOption = r.manifestURL ↔
      r.registry = none ∨ r.tag = none ∨ r.digest = none ∨ r.digest = some [] := by
  cases hregistry : r.registry with
  | none =>
    rw [hwf.unqualified_error hregistry, ImageRef.manifestURL, hregistry]
    exact iff_of_true rfl (Or.inl rfl)
  | some registry =>
    have hmanifest : r.manifestURL = if r.path = [] ∨ r.tag = some [] ∨ r.digest = some [] then none
        else some (ascii "https://" ++ registry ++ ascii "/v2/" ++ r.path ++ ascii "/manifests/" ++
          (r.digest.or r.tag).getD (ascii "latest")) := by
      rw [ImageRef.manifestURL, hregistry, Option.bind_some]
    rw [hmanifest]
    cases hdigest : r.digest with
    | none =>
      refine iff_of_true ?_ (Or.inr (Or.inr (Or.inl rfl)))
      cases htag : r.tag with
      | none =>
        rw [hwf.qualified hregistry (hwf.split_none htag hdigest)]
        refine if_congr ?_ rfl rfl
        simp [ascii]
      | some tag =>
        rw [hwf.qualified hregistry (hwf.split_tag htag hdigest)]
        refine if_congr ?_ rfl rfl
        simp
    | some digest =>
      rw [hwf.qualified hregistry (hwf.split_digest hdigest)]
      cases htag : r.tag with
      | none =>
        refine iff_of_true ?_ (Or.inr (Or.inl rfl))
        rw [show r.path ++ ImageRef.behind ":" none = r.path from List.append_nil _]
        refine if_congr ?_ rfl rfl
        simp
      | some tag =>
        have hrepo : r.path ++ ImageRef.behind ":" (some tag) ≠ [] :=
          List.append_ne_nil_of_right_ne_nil _ (List.cons_ne_nil _ _)
        by_cases hempty : digest = []
        · subst hempty
          rw [if_pos (Or.inr rfl), if_pos (Or.inr (Or.inr rfl))]
          exact iff_of_true rfl (Or.inr (Or.inr (Or.inr rfl)))
        · rw [if_neg (not_or.2 ⟨hrepo, hempty⟩)]
          refine iff_of_false ?_ (by simp [hempty])
          split_ifs
          · exact not_false
          · -- the tag makes the URL longer
            intro heq
            have hlength := congrArg List.length (Option.some.inj heq)
            have hcolon : (ImageRef.behind ":" (some tag)).length = tag.length + 1 := rfl
            simp only [List.length_append, hcolon, Option.some_or, Option.getD_some] at hlength
            omega

def taggedDigest : ImageRef :=
  ⟨.docker, some (ascii "ghcr.io"), ascii "org/app", some (ascii "v1"), some (ascii "sha256:ab")⟩

theorem taggedDigest_wellFormed : taggedDigest.WellFormed where
  plain := by decide +kernel
  registry := by
    intro registry hregistry
    obtain rfl := Option.some.inj hregistry
    decide +kernel
  unqualified := nofun
  path := by decide
  tag := by
    intro tag htag
    obtain rfl := Option.some.inj htag
    decide
  digest := by
    intro digest hdigest
    obtain rfl := Option.some.inj hdigest
    decide

theorem preheat_url_iff_digest :
    (buildPreheatURL (ImageRef.text { taggedDigest with tag := none })).toOption =
      some (ascii "https://ghcr.io/v2/org/app/manifests/sha256:ab") := by
  have hwf : ImageRef.WellFormed { taggedDigest with tag := none } :=
    ⟨by decide +kernel, taggedDigest_wellFormed.registry, nofun, taggedDigest_wellFormed.path, nofun,
      taggedDigest_wellFormed.digest⟩
  exact (preheat_url_iff _ hwf).2 (Or.inr (Or.inl rfl))

theorem preheat_url_keeps_tag : taggedDigest.text = ascii "docker://ghcr.io/org/app:v1@sha256:ab" ∧
    taggedDigest.manifestURL = some (ascii "https://ghcr.io/v2/org/app/manifests/sha256:ab") ∧
    buildPreheatURL taggedDigest.text = .ok (ascii "https://ghcr.io/v2/org/app:v1/manifests/sha256:ab") := by
  decide +kernel

end BuildkitService.Batch
