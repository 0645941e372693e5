import BuildkitService.Archive.Extract

/-!
# Extraction stays below its destination

Both extractors check the name of an entry alone and then join it to the destination.
-/

namespace BuildkitService.Archive

open Strings Files Prog Path List

def Below (dst target : Bytes) : Prop :=
  ∃ names : List Bytes, names ≠ [] ∧ (∀ name ∈ names, Path.Part name ∧ name ≠ Path.dotdot) ∧
    place target = ⟨Path.rooted dst, Path.components dst ++ names⟩ ∧
    (Path.clean dst ≠ Path.dot → Path.clean dst ≠ [Path.slash] →
      target = Path.clean dst ++ Path.slash :: [Path.slash].intercalate names)

def Confined (dst : Bytes) (o : FsOp) : Prop :=
  ∀ k, o.Touches k → k.root = Path.rooted dst ∧
    ((∃ names : List Bytes, names ≠ [] ∧ (∀ name ∈ names, Path.Part name ∧ name ≠ Path.dotdot) ∧
      k.comps = Path.components dst ++ names) ∨
    (∃ p, o = .mkdirAll p) ∧ k.comps <+: Path.components dst)

variable {dst name : Bytes}

theorem below_join (hinside : Inside name) (dst : Bytes) : Below dst (join dst name) := by
  obtain ⟨hcomps, hroot⟩ := hinside.components_join dst
  refine ⟨components name, hinside.ne_nil, fun part hpart => hinside.part hpart, ?_, ?_⟩
  · rw [place, hcomps, hroot]
  · intro hdot hslash
    refine hinside.clean_join ?_
    intro hnil
    rcases clean_of_components_nil hnil with heq | heq
    · exact hdot heq
    · exact hslash heq

/-! ### Operations -/

theorem prefix_of_append {k front back : List Bytes} (hk : k <+: front ++ back) :
    k <+: front ∨ ∃ names, names ≠ [] ∧ names <+: back ∧ k = front ++ names := by
  rcases prefix_or_prefix_of_prefix hk (prefix_append front back) with hfront | hback
  · exact .inl hfront
  · obtain ⟨names, rfl⟩ := hback
    cases names with
    | nil =>
      left
      rw [append_nil]
    | cons first names =>
      right
      exact ⟨_, cons_ne_nil _ _, (prefix_append_right_inj front).1 hk, rfl⟩

theorem confined_mkdirAll {p : Bytes} {names : List Bytes} (hroot : rooted p = rooted dst)
    (hcomps : components p = components dst ++ names)
    (hnames : ∀ name ∈ names, Path.Part name ∧ name ≠ dotdot) : Confined dst (.mkdirAll p) := by
  rintro k ⟨hkroot, hk⟩
  refine ⟨hkroot.trans hroot, ?_⟩
  rw [hcomps] at hk
  rcases prefix_of_append hk with habove | ⟨first, hne, hfirst, hfull⟩
  · exact .inr ⟨⟨p, rfl⟩, habove⟩
  · exact .inl ⟨first, hne, fun name hname => hnames name (hfirst.subset hname), hfull⟩

theorem confined_target {o : FsOp} {target : Bytes} (hbelow : Below dst target)
    (htouch : ∀ k, o.Touches k → k = place target) : Confined dst o := by
  obtain ⟨names, hne, hnames, hplace, _⟩ := hbelow
  intro k hk
  rw [htouch k hk, hplace]
  exact ⟨rfl, .inl ⟨names, hne, hnames, rfl⟩⟩

theorem only_copyBytes {target : Bytes} (hbelow : Below dst target) (content : Bytes) (written : Nat) :
    Only (Confined dst) (copyBytes target content written) := by
  induction content generalizing written with
  | nil => exact only_pure _
  | cons b content ih =>
    have hwrite : Confined dst (.write target b) := confined_target hbelow fun k hk => hk
    rw [copyBytes]
    refine (only_op hwrite).bind ?_
    intro r
    cases r with
    | ok a => exact ih (written + 1)
    | error e => exact only_pure _

theorem only_copyWithLimit {target : Bytes} (hbelow : Below dst target) (src : Stream) (limit : Nat) :
    Only (Confined dst) (copyWithLimit target src limit) := by
  rw [copyWithLimit]
  refine (only_copyBytes hbelow _ 0).bind ?_
  rintro ⟨written, err⟩
  cases err with
  | some e => exact only_pure _
  | none =>
    obtain ⟨more, probed⟩ := src.probe limit
    cases probed with
    | some | none => exact only_pure _

structure Target (dst target : Bytes) : Prop where
  below : Below dst target
  making : Confined dst (.mkdirAll target)
  parent : Confined dst (.mkdirAll (Path.dir target))

theorem target_join (hinside : Inside name) (dst : Bytes) : Target dst (join dst name) where
  below := below_join hinside dst
  making := by
    obtain ⟨hcomps, hroot⟩ := hinside.components_join dst
    exact confined_mkdirAll hroot hcomps fun part hpart => hinside.part hpart
  parent := by
    obtain ⟨hcomps, hroot⟩ := hinside.components_dir dst
    exact confined_mkdirAll hroot hcomps fun part hpart => hinside.part (mem_of_mem_dropLast hpart)

variable {target : Bytes} {e : ZipEntry} {remaining limit : Nat}

theorem Target.create (htarget : Target dst target) : Confined dst (.create target) :=
  confined_target htarget.below fun _ hk => hk

theorem Target.remove (htarget : Target dst target) : Confined dst (.remove target) :=
  confined_target htarget.below fun _ hk => hk

theorem confined_close : Confined dst (.close target) := fun _ hk => hk.elim

/-! ### The build daemon -/

namespace Daemon

theorem inside_of_valid (hvalid : validateBuildArchivePath name = .ok ()) : Inside name := by
  unfold validateBuildArchivePath at hvalid
  split at hvalid
  · cases hvalid
  · rename_i hstart
    dsimp only at hvalid
    split_ifs at hvalid with hclean
    rw [Bool.or_eq_true, not_or, Bool.not_eq_true, Bool.not_eq_true] at hstart
    rw [not_or, not_or, Bool.not_eq_true] at hclean
    obtain ⟨hdot, hup, hpre⟩ := hclean
    exact inside_of_clean ((rooted_eq_hasPrefix name).trans hstart.2) hdot hup hpre

theorem only_extractFile (htarget : Target dst target) :
    Only (Confined dst) (extractFile target e remaining limit) := by
  refine (only_op htarget.parent).attempt fun () => ?_
  refine (only_pure _).attempt fun () => ?_
  refine (only_op htarget.create).attempt fun () => ?_
  refine (only_copyWithLimit htarget.below _ _).bind ?_
  rintro ⟨written, exceeded, copyErr⟩
  refine (only_op confined_close).bind ?_
  intro closed
  cases copyErr with
  | some err => exact only_pure _
  | none =>
    dsimp only
    split_ifs
    · exact (only_op htarget.remove).bind fun () => only_pure _
    · cases closed with
      | ok | error => exact only_pure _

theorem only_extractEntries (entries : List ZipEntry) (extracted : Nat) :
    Only (Confined dst) (extractEntries dst limit entries extracted) := by
  induction entries generalizing extracted with
  | nil => exact only_pure _
  | cons e entries ih =>
    rw [extractEntries]
    cases hvalid : validateBuildArchivePath e.name with
    | error err => exact only_pure _
    | ok a =>
      have htarget := target_join (inside_of_valid hvalid) dst
      rw [attempt_ok]
      dsimp only
      split_ifs
      · exact (only_op htarget.making).attempt fun () => ih extracted
      · exact only_pure _
      · exact (only_extractFile htarget).attempt fun written => ih (extracted + written)

theorem only_extractZip (archive : Except GoError (List ZipEntry)) (dst : Bytes)
    (maxExtractedBytes maxArchiveFiles : Nat) :
    Only (Confined dst) (extractZip archive dst maxExtractedBytes maxArchiveFiles) := by
  cases archive with
  | error err => exact only_pure _
  | ok entries =>
    rw [extractZip]
    split_ifs
    · exact only_pure _
    · exact only_extractEntries entries 0

end Daemon

/-! ### The batch daemon -/

namespace Batch

theorem inside_of_valid {cleaned : Bytes} (hvalid : validateBuildArchivePath name = .ok cleaned)
    (hcleaned : cleaned ≠ []) : Inside cleaned ∧ clean cleaned = cleaned := by
  unfold validateBuildArchivePath at hvalid
  dsimp only at hvalid
  split_ifs at hvalid with hempty hroot hdot hup
  · exact absurd (Except.ok.inj hvalid).symm hcleaned
  · exact absurd (Except.ok.inj hvalid).symm hcleaned
  · have heq := Except.ok.inj hvalid
    rw [not_or, Bool.not_eq_true] at hup
    rw [Bool.not_eq_true, ← rooted_eq_hasPrefix] at hroot
    rw [← heq]
    exact ⟨(inside_of_clean hroot hdot hup.1 hup.2).clean, clean_clean _⟩

theorem only_extractFile (htarget : Target dst target) :
    Only (Confined dst) (extractFile target e remaining limit) := by
  refine (only_op htarget.parent).attempt fun () => ?_
  refine (only_op htarget.create).attempt fun () => ?_
  refine (only_pure _).attempt fun () => ?_
  refine (only_copyWithLimit htarget.below _ _).bind ?_
  rintro ⟨written, exceeded, copyErr⟩
  cases copyErr with
  | some err => exact only_pure _
  | none =>
    dsimp only
    split_ifs
    · exact (only_op htarget.remove).bind fun () => only_pure _
    · exact only_pure _

theorem only_extractEntries (entries : List ZipEntry) (extracted : Nat) :
    Only (Confined dst) (extractEntries dst limit entries extracted) := by
  induction entries generalizing extracted with
  | nil => exact only_pure _
  | cons e entries ih =>
    rw [extractEntries]
    cases hvalid : validateBuildArchivePath e.name with
    | error err => exact only_pure _
    | ok cleaned =>
      rw [attempt_ok]
      by_cases hcleaned : cleaned.isEmpty = true
      · rw [if_pos hcleaned]
        exact ih extracted
      · have htarget : Target dst (clean (join dst cleaned)) := by
          have hinside := (inside_of_valid hvalid fun hnil => hcleaned (List.isEmpty_iff.2 hnil)).1
          rw [hinside.clean_of_join]
          exact target_join hinside dst
        rw [if_neg hcleaned]
        dsimp only
        split_ifs
        · exact only_pure _
        · exact (only_op htarget.making).attempt fun () => ih extracted
        · exact only_pure _
        · exact (only_extractFile htarget).attempt fun written => ih (extracted + written)

theorem only_extractZip (archive : Except GoError (List ZipEntry)) (dst : Bytes)
    (maxExtractedBytes maxArchiveFiles : Nat) :
    Only (Confined dst) (extractZip archive dst maxExtractedBytes maxArchiveFiles) := by
  cases archive with
  | error err => exact only_pure _
  | ok entries => exact (only_pure _).attempt fun () => only_extractEntries entries 0

end Batch

/-! ### Both -/

/-- Nothing that is extracted leaves the destination. -/
theorem extraction_confined (dst : Bytes) :
    (∀ name, Daemon.validateBuildArchivePath name = .ok () → Below dst (Path.join dst name)) ∧
    (∀ name cleaned, Batch.validateBuildArchivePath name = .ok cleaned → cleaned ≠ [] →
      Below dst (Path.clean (Path.join dst cleaned))) ∧
    (∀ archive maxExtractedBytes maxArchiveFiles,
      Only (Confined dst) (Daemon.extractZip archive dst maxExtractedBytes maxArchiveFiles)) ∧
    (∀ archive maxExtractedBytes maxArchiveFiles,
      Only (Confined dst) (Batch.extractZip archive dst maxExtractedBytes maxArchiveFiles)) := by
  refine ⟨?_, ?_, fun archive => Daemon.only_extractZip archive dst, fun archive => Batch.only_extractZip archive dst⟩
  · intro name hvalid
    exact below_join (Daemon.inside_of_valid hvalid) dst
  · intro name cleaned hvalid hcleaned
    have hinside := (Batch.inside_of_valid hvalid hcleaned).1
    rw [hinside.clean_of_join]
    exact below_join hinside dst

def plainFile (name content : Bytes) : ZipEntry := ⟨name, false, .ofNat content.length, .ok (), ⟨content, none, false⟩⟩

theorem extraction_confined_roundabout :
    Below (ascii "/work/t/input") (Path.join (ascii "/work/t/input") (ascii "a/../b")) ∧
    Below (ascii "/work/t/input") (Path.clean (Path.join (ascii "/work/t/input") (ascii "b"))) ∧
    Only (Confined (ascii "/work/t/input"))
      (Daemon.extractZip (.ok [plainFile (ascii "a/../b") (ascii "x")]) (ascii "/work/t/input") 10 1) := by
  have hboth := extraction_confined (ascii "/work/t/input")
  refine ⟨hboth.1 _ (by decide +kernel), hboth.2.1 (ascii "a\\..\\b") _ (by decide +kernel) (by decide), hboth.2.2.1 _ _ _⟩

theorem destination_made :
    let before := Tree.empty.set (place (ascii "/tmp")) .dir
    let after := Prog.run answer
      (Batch.extractZip (.ok [plainFile (ascii "a/Dockerfile") (ascii "x")]) (ascii "/tmp/images") 10 1) before
    before.get (place (ascii "/tmp/images")) = none ∧ after.2.get (place (ascii "/tmp/images")) = some .dir := by
  decide +kernel

end BuildkitService.Archive
