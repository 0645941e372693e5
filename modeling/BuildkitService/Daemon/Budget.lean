import BuildkitService.Archive.Confined
import BuildkitService.Daemon.Server
import BuildkitService.Dockerfile.Length

/-!
# The bytes that a request puts into its directory

The steps of a create request that write files, each with the bytes it may add below the directory
of the task.
-/

namespace BuildkitService.Daemon

open Strings Files Archive Prog Path List

def allotted (top : Place) (bound : Nat) : Prog.Rules FsOp FsRes Tree where
  sem t o r t' := ∃ kept : Place → Bool, Does (t.keep kept) o r t'
  guard _ o := ∀ p b, o = .write p b → top.under (place p) = true
  during t := t.sizeUnder top ≤ bound

def FsOp.Silent (o : FsOp) : Prop := ∀ p b, o ≠ .write p b

variable {α : Type} {top : Place} {bound n limit : Nat} {t t' : Tree} {path dst : Bytes} {o : FsOp}

/-! ### Paths below the directory -/

theorem under_join {name : Bytes} (hinside : Inside name) (hdst : top.under (place dst) = true) :
    top.under (place (join dst name)) = true := by
  obtain ⟨hroot, hcomps⟩ := Place.under_iff.1 hdst
  obtain ⟨hjoin, hrooted⟩ := hinside.components_join dst
  refine Place.under_iff.2 ⟨hrooted.trans hroot, ?_⟩
  show top.comps <+: components (join dst name)
  rw [hjoin]
  exact hcomps.trans (prefix_append _ _)

theorem top_join {name : Bytes} (hinside : Inside name) : (place (join dst name)).top = false := by
  obtain ⟨part, hpart⟩ := exists_mem_of_ne_nil _ hinside.ne_nil
  rw [← Bool.not_eq_true]
  intro htop
  have hmem : part ∈ (place (join dst name)).comps := by
    show part ∈ components (join dst name)
    rw [(hinside.components_join dst).1]
    exact mem_append_right _ hpart
  have heq := List.all_eq_true.1 htop part hmem
  rw [beq_iff_eq] at heq
  exact hinside.below (heq ▸ hpart)

theorem inside_ascii {name : String} (hplain : plain (ascii name) = true) : Inside (ascii name) := by
  obtain ⟨hpart, hname⟩ := plain_iff.1 hplain
  exact inside_part hpart hname

/-! ### Calls -/

theorem sizeUnder_call {r : FsRes o} (hsem : (allotted top bound).sem t o r t') :
    t'.sizeUnder top ≤ t.sizeUnder top + FsOp.growth top o := by
  obtain ⟨kept, hdoes⟩ := hsem
  have hkept : (t.keep kept).sizeUnder top ≤ t.sizeUnder top := sizeUnder_keep_le kept
  have hgrowth := hdoes.sizeUnder_le top
  omega

theorem growth_silent (hsilent : FsOp.Silent o) (top : Place) : FsOp.growth top o = 0 := by
  cases o with
  | write p b => exact absurd rfl (hsilent p b)
  | _ => rfl

theorem holds_silent {p : FsProg α} (hsilent : Only FsOp.Silent p) (hsize : t.sizeUnder top ≤ n) (hn : n ≤ bound) :
    Holds (allotted top bound) p t fun _ t' => t'.sizeUnder top ≤ n := by
  refine hsilent.holds (I := fun t : Tree => t.sizeUnder top ≤ n) (fun _ hs => hs.trans hn) ?_ ?_ hsize
  · intro s o _ ho p b heq
    exact absurd heq (ho p b)
  · intro s o r s' hs ho hsem
    have hcall := sizeUnder_call hsem
    rw [growth_silent ho] at hcall
    exact hcall.trans hs

/-! ### Copies -/

theorem holds_copyBytes {content : Bytes} (written : Nat) (hpath : top.under (place path) = true)
    (hsize : t.sizeUnder top ≤ n) (hroom : n + content.length ≤ bound) :
    Holds (allotted top bound) (copyBytes path content written) t fun copied t' =>
      copied.1 ≤ written + content.length ∧ t'.sizeUnder top + written ≤ n + copied.1 := by
  induction content generalizing written t n with
  | nil =>
    refine holds_pure (hsize.trans hroom) ⟨le_rfl, ?_⟩
    show t.sizeUnder top + written ≤ n + written
    omega
  | cons b content ih =>
    rw [length_cons] at hroom
    have hwritten : ∀ r t', (allotted top bound).sem t (.write path b) r t' → t'.sizeUnder top ≤ n + 1 := by
      intro r t' hsem
      have hcall := sizeUnder_call hsem
      rw [FsOp.growth, if_pos hpath] at hcall
      omega
    refine holds_op_bind (show t.sizeUnder top ≤ bound by omega) ?_ ?_
    · intro p b' heq
      obtain ⟨rfl, _⟩ := FsOp.write.inj heq
      exact hpath
    · intro r t' hsem
      cases r with
      | ok a =>
        refine (ih (written + 1) (hwritten _ _ hsem) (by omega)).mono ?_
        rintro copied t'' _ ⟨hcopied, htotal⟩
        rw [length_cons]
        constructor
        · omega
        · omega
      | error e =>
        have hkept : t'.sizeUnder top ≤ n := by
          obtain ⟨kept, hdoes⟩ := hsem
          have hsame : t' = t.keep kept := hdoes
          rw [hsame]
          exact (sizeUnder_keep_le kept).trans hsize
        refine holds_pure (show t'.sizeUnder top ≤ bound by omega) ⟨Nat.le_add_right _ _, ?_⟩
        show t'.sizeUnder top + written ≤ n + written
        omega

theorem holds_copyWithLimit {src : Stream} (hpath : top.under (place path) = true)
    (hsize : t.sizeUnder top ≤ n) (hroom : n + limit ≤ bound) :
    Holds (allotted top bound) (copyWithLimit path src limit) t fun copied t' =>
      copied.1 ≤ limit ∧ t'.sizeUnder top ≤ n + copied.1 := by
  have hlimit : (src.content.take limit).length ≤ limit := length_take_le _ _
  refine (holds_copyBytes 0 hpath hsize (by omega)).bind ?_
  rintro ⟨written, err⟩ t' ⟨hwritten, htotal⟩ hnow
  dsimp only at hwritten htotal
  have hcopied : written ≤ limit ∧ t'.sizeUnder top ≤ n + written := ⟨by omega, by omega⟩
  cases err with
  | some e => exact holds_pure hnow hcopied
  | none =>
    obtain ⟨more, probed⟩ := src.probe limit
    cases probed with
    | some | none => exact holds_pure hnow hcopied

/-! ### The upload -/

def Sole (top : Place) (path : Bytes) (t : Tree) : Prop := (t.erase (place path)).sizeUnder top = 0

def FsOp.OnFile (path : Bytes) (o : FsOp) : Prop := o = .create path ∨ (∃ b, o = .write path b) ∨ o = .close path

theorem Sole.call {r : FsRes o} (hsole : Sole top path t) (hfile : FsOp.OnFile path o)
    (hsem : (allotted top bound).sem t o r t') : Sole top path t' := by
  obtain ⟨kept, hdoes⟩ := hsem
  have hkept : ((t.keep kept).erase (place path)).sizeUnder top ≤ (t.erase (place path)).sizeUnder top :=
    sizeUnder_erase_keep_le kept
  have hothers : (t'.erase (place path)).sizeUnder top ≤ ((t.keep kept).erase (place path)).sizeUnder top := by
    rcases hfile with rfl | ⟨b, rfl⟩ | rfl
    · cases r with
      | ok a =>
        have hmade : t' = (t.keep kept).set (place path) (.file []) := hdoes
        rw [hmade, sizeUnder_erase_set]
      | error e =>
        have hsame : t' = t.keep kept := hdoes
        rw [hsame]
    · exact hdoes.others_le
    · have hsame : t' = t.keep kept := hdoes
      rw [hsame]
  rw [Sole] at hsole ⊢
  omega

theorem onFile_copyBytes (path content : Bytes) (written : Nat) :
    Only (FsOp.OnFile path) (copyBytes path content written) := by
  induction content generalizing written with
  | nil => exact only_pure _
  | cons b content ih =>
    refine Only.bind (only_op (.inr (.inl ⟨b, rfl⟩))) ?_
    intro r
    cases r with
    | ok a => exact ih (written + 1)
    | error e => exact only_pure _

theorem onFile_copyWithLimit (path : Bytes) (src : Stream) (limit : Nat) :
    Only (FsOp.OnFile path) (copyWithLimit path src limit) := by
  refine (onFile_copyBytes path _ 0).bind ?_
  rintro ⟨written, err⟩
  cases err with
  | some e => exact only_pure _
  | none =>
    obtain ⟨more, probed⟩ := src.probe limit
    cases probed with
    | some | none => exact only_pure _

theorem onFile_saveUploadedFile (upload : Upload) (path : Bytes) (maxBytes : Nat) :
    Only (FsOp.OnFile path) (saveUploadedFile upload path maxBytes) := by
  rw [saveUploadedFile]
  split_ifs
  · exact only_pure _
  · cases upload.opened with
    | error err => exact only_pure _
    | ok a =>
      refine Only.bind (only_op (.inl rfl)) ?_
      intro made
      cases made with
      | error err => exact only_pure _
      | ok a =>
        refine (onFile_copyWithLimit path _ _).bind ?_
        rintro ⟨written, exceeded, err⟩
        refine Only.bind (only_op (.inr (.inr rfl))) ?_
        intro closed
        cases err with
        | some err => exact only_pure _
        | none =>
          dsimp only
          split_ifs
          · exact only_pure _
          · exact only_pure _

theorem silent_create (path : Bytes) : Only FsOp.Silent (create path) := only_op nofun

theorem silent_close (path : Bytes) : Only FsOp.Silent (close path) := only_op nofun

theorem silent_remove (path : Bytes) : Only FsOp.Silent (remove path) := only_op nofun

theorem silent_mkdirAll (path : Bytes) : Only FsOp.Silent (mkdirAll path) := only_op nofun

theorem holds_saveUploadedFile {upload : Upload} {maxBytes : Nat} (hpath : top.under (place path) = true)
    (hempty : t.sizeUnder top = 0) (hroom : maxBytes ≤ bound) :
    Holds (allotted top bound) (saveUploadedFile upload path maxBytes) t fun _ t' => Sole top path t' := by
  have hsole : Sole top path t := Nat.le_zero.1 ((sizeUnder_keep_le _).trans hempty.le)
  have hnow : t.sizeUnder top ≤ bound := by omega
  have hsaved : Holds (allotted top bound) (saveUploadedFile upload path maxBytes) t fun _ _ => True := by
    rw [saveUploadedFile]
    split_ifs
    · exact holds_pure hnow trivial
    · cases upload.opened with
      | error err => exact holds_pure hnow trivial
      | ok a =>
        refine (holds_silent (silent_create path) hempty.le (Nat.zero_le _)).bind ?_
        intro made t₁ hsize₁ hnow₁
        cases made with
        | error err => exact holds_pure hnow₁ trivial
        | ok a =>
          refine (holds_copyWithLimit hpath hsize₁ (by omega)).bind ?_
          rintro ⟨written, exceeded, err⟩ t₂ _ hnow₂
          refine (holds_silent (silent_close path) hnow₂ le_rfl).bind ?_
          intro closed t₃ _ hnow₃
          cases err with
          | some err => exact holds_pure hnow₃ trivial
          | none =>
            dsimp only
            split_ifs
            · exact holds_pure hnow₃ trivial
            · exact holds_pure hnow₃ trivial
  exact ((onFile_saveUploadedFile upload path maxBytes).carry (fun _ _ _ _ hs ho hsem => hs.call ho hsem) hsole
    hsaved).mono fun _ _ _ hpost => hpost.2

theorem holds_stat (hpath : top.under (place path) = true) (htop : (place path).top = false) (hsole : Sole top path t)
    (hnow : t.sizeUnder top ≤ bound) :
    Holds (allotted top bound) (stat path) t fun r t' => ∀ info, r = .ok info → t'.sizeUnder top ≤ info.size := by
  refine ⟨hnow, nofun, ?_⟩
  rintro r t' ⟨kept, rfl, hinfo⟩
  refine ⟨(sizeUnder_keep_le kept).trans hnow, ?_⟩
  intro info hr
  obtain ⟨node, hget, rfl⟩ := hinfo info hr
  have hsize := sizeAt_of_get htop hget
  have hsplit := sizeUnder_erase_add (t := t.keep kept) hpath
  have hothers : ((t.keep kept).erase (place path)).sizeUnder top ≤ (t.erase (place path)).sizeUnder top :=
    sizeUnder_erase_keep_le kept
  rw [Sole] at hsole
  show (t.keep kept).sizeUnder top ≤ node.size
  omega

/-! ### The archive -/

theorem holds_extractFile {target : Bytes} {e : ZipEntry} {remaining : Nat}
    (htarget : top.under (place target) = true) (hsize : t.sizeUnder top ≤ n) (hroom : n + remaining ≤ bound) :
    Holds (allotted top bound) (Archive.Daemon.extractFile target e remaining limit) t fun r t' =>
      ∀ written, r = .ok written → written ≤ remaining ∧ t'.sizeUnder top ≤ n + written := by
  have hn : n ≤ bound := by omega
  refine (holds_silent (silent_mkdirAll _) hsize hn).attempt ?_ fun _ _ _ _ => nofun
  intro _ t₁ hsize₁ hnow₁
  cases e.opened with
  | error err => exact holds_pure hnow₁ nofun
  | ok a =>
    rw [attempt_ok]
    refine (holds_silent (silent_create _) hsize₁ hn).attempt ?_ fun _ _ _ _ => nofun
    intro _ t₂ hsize₂ _
    refine (holds_copyWithLimit htarget hsize₂ hroom).bind ?_
    rintro ⟨written, exceeded, copyErr⟩ t₃ ⟨hwritten, hsize₃⟩ hnow₃
    refine (holds_silent (silent_close _) hsize₃ (by dsimp only at hwritten ⊢; omega)).bind ?_
    intro closed t₄ hsize₄ hnow₄
    cases copyErr with
    | some err => exact holds_pure hnow₄ nofun
    | none =>
      dsimp only
      split_ifs
      · refine (holds_silent (silent_remove _) hnow₄ le_rfl).bind ?_
        intro _ t₅ _ hnow₅
        exact holds_pure hnow₅ nofun
      · cases closed with
        | error err => exact holds_pure hnow₄ nofun
        | ok a =>
          refine holds_pure hnow₄ ?_
          intro written' heq
          rw [← Except.ok.inj heq]
          exact ⟨hwritten, hsize₄⟩

theorem holds_extractEntries {zipped extracted : Nat} {entries : List ZipEntry}
    (hdst : top.under (place dst) = true) (hsize : t.sizeUnder top ≤ zipped + extracted)
    (hextracted : extracted ≤ limit) (hroom : zipped + limit ≤ bound) :
    Holds (allotted top bound) (Archive.Daemon.extractEntries dst limit entries extracted) t fun _ _ => True := by
  induction entries generalizing extracted t with
  | nil => exact holds_pure (show t.sizeUnder top ≤ bound by omega) trivial
  | cons e entries ih =>
    rw [Archive.Daemon.extractEntries]
    cases hvalid : Archive.Daemon.validateBuildArchivePath e.name with
    | error err => exact holds_pure (show t.sizeUnder top ≤ bound by omega) trivial
    | ok a =>
      have htarget := under_join (Archive.Daemon.inside_of_valid hvalid) hdst
      rw [attempt_ok]
      dsimp only
      split_ifs
      · refine (holds_silent (silent_mkdirAll _) hsize (by omega)).attempt ?_ fun _ _ _ _ => trivial
        intro _ t' hsize' _
        exact ih hsize' hextracted
      · exact holds_pure (show t.sizeUnder top ≤ bound by omega) trivial
      · refine (holds_extractFile htarget hsize (by omega)).attempt ?_ fun _ _ _ _ => trivial
        intro written t' hfile _
        obtain ⟨hwritten, hsize'⟩ := hfile written rfl
        exact ih (by omega) (by omega)

theorem holds_extractZip {archive : Except GoError (List ZipEntry)}
    {zipped maxExtractedBytes maxArchiveFiles : Nat} (hdst : top.under (place dst) = true)
    (hsize : t.sizeUnder top ≤ zipped) (hroom : zipped + maxExtractedBytes ≤ bound) :
    Holds (allotted top bound) (Archive.Daemon.extractZip archive dst maxExtractedBytes maxArchiveFiles) t
      fun _ _ => True := by
  have hnow : t.sizeUnder top ≤ bound := by omega
  cases archive with
  | error err => exact holds_pure hnow trivial
  | ok entries =>
    rw [Archive.Daemon.extractZip]
    split_ifs
    · exact holds_pure hnow trivial
    · exact holds_extractEntries hdst hsize (Nat.zero_le _) hroom

/-! ### The context -/

theorem silent_fileExists (path : Bytes) : Only FsOp.Silent (fileExists path) := by
  refine Only.bind (only_op nofun) ?_
  intro r
  cases r with
  | ok | error => exact only_pure _

theorem holds_contextCandidates {root : Bytes} {entries : List (Bytes × Bool)} (hnow : t.sizeUnder top ≤ bound) :
    Holds (allotted top bound) (contextCandidates root entries) t fun candidates _ =>
      ∀ candidate ∈ candidates, ∃ entry ∈ entries, candidate = join root entry.1 := by
  induction entries generalizing t with
  | nil => exact holds_pure hnow nofun
  | cons entry entries ih =>
    obtain ⟨name, isDir⟩ := entry
    have hlater : ∀ candidates : List Bytes,
        (∀ candidate ∈ candidates, ∃ entry ∈ entries, candidate = join root entry.1) →
        ∀ candidate ∈ candidates, ∃ entry ∈ (name, isDir) :: entries, candidate = join root entry.1 := by
      intro candidates hcandidates candidate hmem
      obtain ⟨entry, hentry, heq⟩ := hcandidates candidate hmem
      exact ⟨entry, mem_cons_of_mem _ hentry, heq⟩
    rw [contextCandidates]
    split_ifs
    · refine (holds_silent (silent_fileExists _) hnow le_rfl).bind ?_
      intro found t₁ _ hnow₁
      refine (ih hnow₁).bind ?_
      intro candidates t₂ hcandidates hnow₂
      refine holds_pure hnow₂ ?_
      split_ifs
      · intro candidate hmem
        rcases mem_cons.1 hmem with rfl | hmem
        · exact ⟨(name, isDir), mem_cons_self, rfl⟩
        · exact hlater candidates hcandidates candidate hmem
      · exact hlater candidates hcandidates
    · exact (ih hnow).mono fun candidates _ _ hcandidates => hlater candidates hcandidates

theorem holds_findBuildContext {root : Bytes} (hroot : top.under (place root) = true) (hnow : t.sizeUnder top ≤ bound) :
    Holds (allotted top bound) (findBuildContext root) t fun r _ =>
      ∀ dir, r = .ok dir → top.under (place dir) = true := by
  refine (holds_silent (silent_fileExists _) hnow le_rfl).bind ?_
  intro found t₁ _ hnow₁
  split_ifs
  · refine holds_pure hnow₁ ?_
    intro dir heq
    rw [← Except.ok.inj heq]
    exact hroot
  · have hnames : Holds (allotted top bound) (readDir root) t₁ fun r _ =>
        ∀ names, r = .ok names → ∀ name ∈ names, plain name.1 = true := by
      refine ⟨hnow₁, nofun, ?_⟩
      rintro r t₂ ⟨kept, rfl, hplain⟩
      exact ⟨(sizeUnder_keep_le kept).trans hnow₁, hplain⟩
    refine hnames.attempt ?_ fun _ _ _ _ => nofun
    intro entries t₂ hplain hnow₂
    refine (holds_contextCandidates hnow₂).bind ?_
    intro candidates t₃ hcandidates hnow₃
    match candidates, hcandidates with
    | [], _ => exact holds_pure hnow₃ nofun
    | [candidate], hcandidates =>
      refine holds_pure hnow₃ ?_
      intro dir heq
      obtain ⟨entry, hentry, hjoin⟩ := hcandidates candidate mem_cons_self
      obtain ⟨hpart, hname⟩ := plain_iff.1 (hplain entries rfl entry hentry)
      rw [← Except.ok.inj heq, hjoin]
      exact under_join (inside_part hpart hname) hroot
    | _ :: _ :: _, _ => exact holds_pure hnow₃ nofun

/-! ### The Dockerfile -/

theorem holds_writeFile {content : Bytes} (hpath : top.under (place path) = true) (hnow : t.sizeUnder top ≤ bound)
    (hroom : (t.erase (place path)).sizeUnder top + content.length ≤ bound) :
    Holds (allotted top bound) (writeFile path content) t fun _ _ => True := by
  have hmade : Holds (allotted top bound) (create path) t fun r t' =>
      r = .ok () → t'.sizeUnder top ≤ (t.erase (place path)).sizeUnder top := by
    refine ⟨hnow, fun _ _ hwrite => (by cases hwrite), ?_⟩
    rintro r t' ⟨kept, hdoes⟩
    cases r with
    | ok a =>
      have hempty : weight top (place path, Node.file []) = 0 := by
        rw [weight]
        split_ifs <;> rfl
      have hset : t' = (t.keep kept).set (place path) (.file []) := hdoes
      have hsize : t'.sizeUnder top ≤ (t.erase (place path)).sizeUnder top := by
        rw [hset, sizeUnder_set, hempty, Nat.zero_add]
        exact sizeUnder_erase_keep_le kept
      exact ⟨show t'.sizeUnder top ≤ bound by omega, fun _ => hsize⟩
    | error e =>
      have hsame : t' = t.keep kept := hdoes
      rw [hsame]
      exact ⟨(sizeUnder_keep_le kept).trans hnow, fun hok => (by cases hok)⟩
  refine hmade.attempt ?_ fun _ _ _ _ => trivial
  intro _ t₁ hsize₁ _
  refine (holds_copyBytes 0 hpath (hsize₁ rfl) hroom).bind ?_
  rintro ⟨written, err⟩ t₂ _ hnow₂
  refine (holds_silent (silent_close path) hnow₂ le_rfl).bind ?_
  intro closed t₃ _ hnow₃
  cases err with
  | some | none => exact holds_pure hnow₃ trivial

theorem holds_preprocessDockerfile {fe : Dockerfile.Frontend} (hpath : top.under (place path) = true)
    (htop : (place path).top = false) (hnow : t.sizeUnder top ≤ bound) :
    Holds (allotted top bound) (preprocessDockerfile fe path) t fun _ _ => True := by
  have hread : Holds (allotted top bound) (readFile path) t fun r t' =>
      ∀ raw, r = .ok raw → (t'.erase (place path)).sizeUnder top + raw.length ≤ bound := by
    refine ⟨hnow, nofun, ?_⟩
    rintro r t' ⟨kept, rfl, hcontent⟩
    have hnow' : (t.keep kept).sizeUnder top ≤ bound := (sizeUnder_keep_le kept).trans hnow
    refine ⟨hnow', ?_⟩
    intro raw hr
    have hsize := sizeAt_of_get htop (hcontent raw hr)
    have hsplit := sizeUnder_erase_add (t := t.keep kept) hpath
    have hlength : (Node.file raw).size = raw.length := rfl
    omega
  refine hread.attempt ?_ fun _ _ _ _ => trivial
  intro raw t₁ hraw hnow₁
  have hroom := hraw raw rfl
  cases htransform : Dockerfile.transformLegacyHeredocs fe raw with
  | error err => exact holds_pure hnow₁ trivial
  | ok result =>
    obtain ⟨processed, changed⟩ := result
    have hlength := Dockerfile.transform_length htransform
    dsimp only
    split_ifs
    · have hstat : Holds (allotted top bound) (stat path) t₁ fun _ t' =>
          (t'.erase (place path)).sizeUnder top ≤ (t₁.erase (place path)).sizeUnder top := by
        refine ⟨hnow₁, nofun, ?_⟩
        rintro r t' ⟨kept, rfl, _⟩
        exact ⟨(sizeUnder_keep_le kept).trans hnow₁, sizeUnder_erase_keep_le kept⟩
      refine hstat.attempt ?_ fun _ _ _ _ => trivial
      intro _ t₂ hothers hnow₂
      refine (holds_writeFile hpath hnow₂ (by omega)).attempt ?_ fun _ _ _ _ => trivial
      intro _ t₃ _ hnow₃
      exact holds_pure hnow₃ trivial
    · exact holds_pure hnow₁ trivial

theorem silent_resolveBuildImage (unmarshal : Bytes → Except GoError Bytes) (contextDir imageOverride : Bytes) :
    Only FsOp.Silent (resolveBuildImage unmarshal contextDir imageOverride) := by
  rw [resolveBuildImage]
  split_ifs
  · refine Only.bind (only_op nofun) ?_
    intro r
    cases r with
    | error err =>
      dsimp only
      split_ifs
      · exact only_pure _
      · exact only_pure _
    | ok raw =>
      dsimp only
      split
      · exact only_pure _
      · split_ifs
        · exact only_pure _
        · exact only_pure _
  · exact only_pure _

end BuildkitService.Daemon
