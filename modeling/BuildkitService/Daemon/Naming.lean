import BuildkitService.Daemon.Build
import BuildkitService.Lib.Reference

/-!
# The names of the images of a task

`buildStepsForImageType` works on the text of a reference: it adds or removes `_nydus_v3` at its
end.
-/

namespace BuildkitService.Daemon

open Strings List

def StepNames (ref : Reference) (step : BuildStep) : Prop :=
  ∃ named : Reference, named.text = step.image ∧ named.name = ref.name ∧
    match step.format with
    | .nydus => ∃ tag, named.tag = some tag ∧ hasSuffix tag nydusV3TargetSuffix = true
    | .oci => ∀ tag, named.tag = some tag → hasSuffix tag nydusV3TargetSuffix = false

def maxTagLength : Nat := 128

def Nameable (ref : Reference) : ImageType → Prop
  | .nydus => ∃ tag, ref.tag = some tag ∧
      (hasSuffix tag nydusV3TargetSuffix = true ∨ tag.length + nydusV3TargetSuffix.length ≤ maxTagLength)
  | .oci =>
      (ref.tag = none ∧ hasSuffix ref.name nydusV3TargetSuffix = false) ∨
      ∃ tag, ref.tag = some tag ∧ trimSuffix tag nydusV3TargetSuffix ≠ [] ∧
        hasSuffix (trimSuffix tag nydusV3TargetSuffix) nydusV3TargetSuffix = false
  | .both => ∃ tag, ref.tag = some tag ∧ trimSuffix tag nydusV3TargetSuffix ≠ [] ∧
      hasSuffix (trimSuffix tag nydusV3TargetSuffix) nydusV3TargetSuffix = false ∧
      (trimSuffix tag nydusV3TargetSuffix).length + nydusV3TargetSuffix.length ≤ maxTagLength

/-! ### Tags with the suffix -/

theorem colon_not_mem_suffix : (0x3A : UInt8) ∉ nydusV3TargetSuffix := by decide

theorem validTag_length {tag : Bytes} (htag : Reference.validTag tag = true) : tag.length ≤ maxTagLength := by
  cases tag with
  | nil => exact Nat.zero_le _
  | cons a tag =>
    simp only [Reference.validTag, Bool.and_eq_true, decide_eq_true_eq] at htag
    exact Nat.succ_le_succ htag.2

theorem validTag_append_suffix {tag : Bytes} (htag : Reference.validTag tag = true)
    (hlength : tag.length + nydusV3TargetSuffix.length ≤ maxTagLength) :
    Reference.validTag (tag ++ nydusV3TargetSuffix) = true := by
  cases tag with
  | nil => cases htag
  | cons a tag =>
    have hsuffix : nydusV3TargetSuffix.all (fun b => Reference.word b || b == 0x2E || b == 0x2D) = true := by
      decide
    simp only [Reference.validTag, Bool.and_eq_true, decide_eq_true_eq] at htag
    simp only [cons_append, Reference.validTag, Bool.and_eq_true, decide_eq_true_eq, all_append,
      length_append]
    rw [length_cons, maxTagLength] at hlength
    exact ⟨⟨htag.1.1, htag.1.2, hsuffix⟩, by omega⟩

theorem validTag_trimSuffix {tag : Bytes} (htag : Reference.validTag tag = true)
    (hne : trimSuffix tag nydusV3TargetSuffix ≠ []) :
    Reference.validTag (trimSuffix tag nydusV3TargetSuffix) = true := by
  cases hsuf : hasSuffix tag nydusV3TargetSuffix with
  | false =>
    rw [trimSuffix_of_not hsuf]
    exact htag
  | true =>
    obtain ⟨stem, rfl⟩ := hasSuffix_iff.1 hsuf
    rw [trimSuffix_append] at hne ⊢
    cases stem with
    | nil => exact absurd rfl hne
    | cons a stem =>
      simp only [cons_append, Reference.validTag, Bool.and_eq_true, decide_eq_true_eq, all_append,
        length_append] at htag
      simp only [Reference.validTag, Bool.and_eq_true, decide_eq_true_eq]
      exact ⟨⟨htag.1.1, htag.1.2.1⟩, by omega⟩

section Texts

variable {ref : Reference} {tag : Bytes}

theorem hasSuffix_tagged (htag : ref.tag = some tag) :
    hasSuffix ref.text nydusV3TargetSuffix = hasSuffix tag nydusV3TargetSuffix := by
  rw [Reference.text_tagged htag, hasSuffix_append_cons colon_not_mem_suffix]

theorem strip_tagged (htag : ref.tag = some tag) :
    stripNydusV3Suffix ref.text = ref.name ++ 0x3A :: trimSuffix tag nydusV3TargetSuffix := by
  rw [stripNydusV3Suffix_of_trimmed ref.trimSpace_text, Reference.text_tagged htag,
    trimSuffix_append_cons colon_not_mem_suffix]

theorem ensure_tagged (htag : ref.tag = some tag) (hsuf : hasSuffix tag nydusV3TargetSuffix = false) :
    ensureNydusV3Suffix ref.text = ref.name ++ 0x3A :: (tag ++ nydusV3TargetSuffix) := by
  rw [ensureNydusV3Suffix_of_not ref.trimSpace_text ref.text_ne_nil ((hasSuffix_tagged htag).trans hsuf),
    Reference.text_tagged htag, append_assoc, cons_append]

theorem tag_of_text {named : Reference} (hname : named.name = ref.name)
    (htext : named.text = ref.name ++ 0x3A :: tag) : named.tag = some tag := by
  cases htag : named.tag with
  | none =>
    rw [Reference.text_untagged htag, hname] at htext
    exact absurd (congrArg length htext) (by simp)
  | some other =>
    rw [Reference.text_tagged htag, hname] at htext
    rw [(cons.inj (append_cancel_left htext)).2]

end Texts

/-! ### One step -/

section Steps

variable {ref : Reference} {baseImage contextDir : Bytes}

theorem nydus_names_iff :
    StepNames ref ⟨ensureNydusV3Suffix ref.text, .nydus, baseImage, contextDir⟩ ↔ Nameable ref .nydus := by
  constructor
  · rintro ⟨named, htext, hname, tag, htag, hsuf⟩
    dsimp only at htext
    rw [Reference.text_tagged htag, hname] at htext
    cases hold : ref.tag with
    | none =>
      -- The suffix, or nothing, follows the name, where a colon should.
      cases hhas : hasSuffix ref.text nydusV3TargetSuffix with
      | true =>
        rw [ensureNydusV3Suffix_of_suffix ref.trimSpace_text hhas, Reference.text_untagged hold] at htext
        exact absurd (congrArg length htext) (by simp)
      | false =>
        rw [ensureNydusV3Suffix_of_not ref.trimSpace_text ref.text_ne_nil hhas,
          Reference.text_untagged hold] at htext
        have hcolon := append_cancel_left htext
        exact absurd (hcolon ▸ mem_cons_self) colon_not_mem_suffix
    | some old =>
      refine ⟨old, hold, ?_⟩
      cases hhas : hasSuffix old nydusV3TargetSuffix with
      | true => exact .inl rfl
      | false =>
        rw [ensure_tagged hold hhas] at htext
        rw [(cons.inj (append_cancel_left htext)).2] at htag
        have hlength := validTag_length (named.htag _ htag)
        rw [length_append] at hlength
        exact .inr hlength
  · rintro ⟨tag, htag, hcond⟩
    cases hhas : hasSuffix tag nydusV3TargetSuffix with
    | true =>
      refine ⟨ref, ?_, rfl, tag, htag, hhas⟩
      exact (ensureNydusV3Suffix_of_suffix ref.trimSpace_text ((hasSuffix_tagged htag).trans hhas)).symm
    | false =>
      have hlength := hcond.resolve_left (by rw [hhas]; exact Bool.false_ne_true)
      refine ⟨ref.withTag _ (validTag_append_suffix (ref.htag tag htag) hlength), ?_, rfl, _, rfl,
        hasSuffix_iff.2 ⟨tag, rfl⟩⟩
      exact (ensure_tagged htag hhas).symm

theorem oci_named (hcond : Nameable ref .oci) : ∃ named : Reference,
    named.text = stripNydusV3Suffix ref.text ∧ named.name = ref.name ∧
      named.tag = ref.tag.map (fun tag => trimSuffix tag nydusV3TargetSuffix) ∧
      ∀ tag, named.tag = some tag → hasSuffix tag nydusV3TargetSuffix = false := by
  rcases hcond with ⟨htag, hsuf⟩ | ⟨tag, htag, hne, hsuf⟩
  · refine ⟨ref, ?_, rfl, by rw [htag]; rfl, fun tag h => ?_⟩
    · rw [stripNydusV3Suffix_of_trimmed ref.trimSpace_text, Reference.text_untagged htag, trimSuffix_of_not hsuf]
    · rw [htag] at h
      cases h
  · refine ⟨ref.withTag _ (validTag_trimSuffix (ref.htag tag htag) hne), ?_, rfl, by rw [htag]; rfl, ?_⟩
    · exact (strip_tagged htag).symm
    · intro other hother
      cases hother
      exact hsuf

theorem oci_names_iff :
    StepNames ref ⟨stripNydusV3Suffix ref.text, .oci, baseImage, contextDir⟩ ↔ Nameable ref .oci := by
  constructor
  · rintro ⟨named, htext, hname, htags⟩
    dsimp only at htext htags
    cases hold : ref.tag with
    | none =>
      refine .inl ⟨hold, eq_false_of_ne_true fun hhas => ?_⟩
      -- The repository itself loses the suffix.
      obtain ⟨stem, hstem⟩ := hasSuffix_iff.1 hhas
      rw [stripNydusV3Suffix_of_trimmed ref.trimSpace_text, Reference.text_untagged hold, hstem,
        trimSuffix_append] at htext
      have hlonger : named.name.length ≤ stem.length := by
        rw [← htext]
        cases htag : named.tag with
        | none => rw [Reference.text_untagged htag]
        | some tag => rw [Reference.text_tagged htag, length_append]; exact Nat.le_add_right _ _
      rw [hname, hstem, length_append] at hlonger
      exact absurd hlonger (by have : 0 < nydusV3TargetSuffix.length := by decide
                               omega)
    | some tag =>
      rw [strip_tagged hold] at htext
      have htag := tag_of_text hname htext
      refine .inr ⟨tag, hold, fun hnil => ?_, htags _ htag⟩
      have hvalid := named.htag _ htag
      rw [hnil] at hvalid
      cases hvalid
  · intro hcond
    obtain ⟨named, htext, hname, _, hsuf⟩ := oci_named hcond
    exact ⟨named, htext, hname, hsuf⟩

theorem stepNames_congr {named : Reference} (hname : named.name = ref.name) {step : BuildStep} :
    StepNames named step ↔ StepNames ref step := by
  rw [StepNames, StepNames, hname]

end Steps

/-! ### All steps of a task -/

/-- The steps of a task name its repository exactly then. -/
theorem steps_name_iff (ref : Reference) (imageType : ImageType) :
    ((∀ step ∈ buildStepsForImageType ref.text imageType, StepNames ref step) ∧
      (buildStepsForImageType ref.text imageType).Pairwise fun a b => a.image ≠ b.image) ↔
    Nameable ref imageType := by
  cases imageType with
  | nydus =>
    rw [buildStepsForImageType, List.forall_mem_singleton, nydus_names_iff]
    exact and_iff_left (List.pairwise_singleton _ _)
  | oci =>
    rw [buildStepsForImageType, List.forall_mem_singleton, oci_names_iff]
    exact and_iff_left (List.pairwise_singleton _ _)
  | both =>
    simp only [buildStepsForImageType, List.forall_mem_cons, List.pairwise_cons]
    constructor
    · rintro ⟨⟨hoci, hnydus, _⟩, _⟩
      obtain ⟨named, htext, hname, htag, hsuf⟩ := oci_named (oci_names_iff.1 hoci)
      rw [← htext, ← stepNames_congr hname, nydus_names_iff] at hnydus
      obtain ⟨stem, hstem, hcond⟩ := hnydus
      rw [hstem] at htag
      obtain ⟨tag, hold, rfl⟩ := Option.map_eq_some_iff.1 htag.symm
      have hplain := hsuf _ hstem
      refine ⟨tag, hold, fun hnil => ?_, hplain, hcond.resolve_left (by rw [hplain]; exact Bool.false_ne_true)⟩
      have hvalid := named.htag _ hstem
      rw [hnil] at hvalid
      cases hvalid
    · rintro ⟨tag, hold, hne, hplain, hlength⟩
      have hcond : Nameable ref .oci := Or.inr ⟨tag, hold, hne, hplain⟩
      obtain ⟨named, htext, hname, htag, _⟩ := oci_named hcond
      rw [hold, Option.map_some] at htag
      refine ⟨⟨oci_names_iff.2 hcond, ?_, by simp⟩, ⟨?_, by simp⟩, by simp⟩
      · rw [← htext, ← stepNames_congr hname, nydus_names_iff]
        exact ⟨_, htag, Or.inr hlength⟩
      · intro heq
        rw [← htext, ensure_tagged htag hplain, Reference.text_tagged htag] at heq
        exact absurd (congrArg List.length heq) (by simp [nydusV3TargetSuffix, ascii])

def untagged : Reference where
  name := ascii "example.com:5000/ns/repo"
  tag := none
  hname := by decide
  htag := by simp

def repeatedSuffix : Reference where
  name := ascii "example.com/ns/repo"
  tag := some (ascii "tag_nydus_v3_nydus_v3")
  hname := by decide
  htag := by
    intro text htext
    cases htext
    decide

theorem untagged_changes_repository :
    (buildStepsForImageType untagged.text .nydus).map BuildStep.image =
        [ascii "example.com:5000/ns/repo_nydus_v3"] ∧
      (∀ step ∈ buildStepsForImageType untagged.text .nydus, ¬ StepNames untagged step) ∧
      (buildStepsForImageType repeatedSuffix.text .both).map BuildStep.image =
        [ascii "example.com/ns/repo:tag_nydus_v3", ascii "example.com/ns/repo:tag_nydus_v3"] := by
  refine ⟨by decide, ?_, by decide⟩
  rw [buildStepsForImageType, List.forall_mem_singleton, nydus_names_iff]
  rintro ⟨tag, htag, _⟩
  cases htag

end BuildkitService.Daemon
