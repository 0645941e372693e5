import BuildkitService.Archive.Unpacked

/-!
# Accepted archives

What `validateBuildArchive` promises and what the build asks for later: the declared sizes leave
room for every file and all names are good, but whether the entries can be extracted side by side,
and whether `Dockerfile` and `metadata.json` are files, is not looked at.
-/

namespace BuildkitService.Archive.Batch

open Strings Files List Path Prog

variable {dest name : Bytes} {done : List Item} {t : Tree} {limit : Nat} {entries : List ZipEntry}

/-! ### What acceptance gives -/

theorem declaredTotal_ok {total : Nat} (hok : declaredTotal limit entries total = .ok ())
    (htotal : total ≤ limit) : total + Ledger.total ZipEntry.declared entries ≤ limit := by
  induction entries generalizing total with
  | nil => exact htotal
  | cons e entries ih =>
    rw [declaredTotal] at hok
    split_ifs at hok with hroom
    have hrest := ih hok (by omega)
    rw [Ledger.total_cons]
    omega

theorem collectTopLevels_ok {topLevels topLevels' : List TopLevel}
    (hok : collectTopLevels entries topLevels = .ok topLevels') :
    (∀ e ∈ entries, ∃ cleaned, validateBuildArchivePath e.name = .ok cleaned) ∧
      (items entries = [] → topLevels' = topLevels) := by
  induction entries generalizing topLevels with
  | nil => exact ⟨nofun, fun _ => (Except.ok.inj hok).symm⟩
  | cons e entries ih =>
    rw [collectTopLevels] at hok
    cases hvalid : validateBuildArchivePath e.name with
    | error err =>
      rw [hvalid] at hok
      cases hok
    | ok cleaned =>
      rw [hvalid] at hok
      dsimp only at hok
      split_ifs at hok with hempty
      · obtain ⟨hnames, hsame⟩ := ih hok
        refine ⟨forall_mem_cons.2 ⟨⟨cleaned, hvalid⟩, hnames⟩, ?_⟩
        intro hitems
        refine hsame ?_
        rwa [items, filterMap_cons_none (by rw [item, hvalid]; exact if_pos hempty)] at hitems
      · refine ⟨forall_mem_cons.2 ⟨⟨cleaned, hvalid⟩, (ih hok).1⟩, ?_⟩
        intro hitems
        rw [items, filterMap_cons_some (by rw [item, hvalid]; exact if_neg hempty)] at hitems
        cases hitems

theorem accepted_facts {maxArchiveFiles count : Nat}
    (haccepted : validateBuildArchive (.ok entries) limit maxArchiveFiles = .ok count) :
    validateDaemonArchiveLimits entries limit maxArchiveFiles = .ok () ∧
      Ledger.total ZipEntry.declared entries ≤ limit ∧
      (∀ e ∈ entries, ∃ cleaned, validateBuildArchivePath e.name = .ok cleaned) ∧ items entries ≠ [] := by
  change (validateDaemonArchiveLimits entries limit maxArchiveFiles).bind
    (fun _ => (collectTopLevels entries []).bind judgeTopLevels) = .ok count at haccepted
  cases hlimits : validateDaemonArchiveLimits entries limit maxArchiveFiles with
  | error err =>
    rw [hlimits] at haccepted
    cases haccepted
  | ok a =>
    rw [hlimits] at haccepted
    cases hcollect : collectTopLevels entries [] with
    | error err =>
      rw [hcollect] at haccepted
      cases haccepted
    | ok topLevels =>
      rw [hcollect] at haccepted
      obtain ⟨hvalid, hsame⟩ := collectTopLevels_ok hcollect
      refine ⟨rfl, ?_, hvalid, ?_⟩
      · rw [validateDaemonArchiveLimits] at hlimits
        split_ifs at hlimits
        have htotal := declaredTotal_ok hlimits (Nat.zero_le limit)
        rwa [Nat.zero_add] at htotal
      · intro hnil
        rw [hsame hnil] at haccepted
        cases haccepted

/-! ### Images -/

theorem run_requireRegularFile (path : Bytes) :
    ((run answer (requireRegularFile path) t).1 = .ok () ↔ ∃ content, t.get (place path) = some (.file content)) ∧
      (run answer (requireRegularFile path) t).2 = t := by
  rw [requireRegularFile, run_bind, run_stat]
  cases hget : t.get (place path) with
  | none => simp [missing]
  | some node =>
    cases node with
    | dir | file => simp

theorem run_validateSourceImageDir (dir : Bytes) : (run answer (validateSourceImageDir dir) t).1 = .ok () ↔
    ∀ name ∈ [dockerfile, metadata], ∃ content, t.get (place (join dir name)) = some (.file content) := by
  obtain ⟨hdockerfile, htree⟩ := run_requireRegularFile (t := t) (join dir dockerfile)
  have hmetadata := (run_requireRegularFile (t := t) (join dir metadata)).1
  rw [forall_mem_cons, forall_mem_singleton, ← hdockerfile, ← hmetadata, validateSourceImageDir, run_bind,
    htree]
  cases hfirst : (run answer (requireRegularFile (join dir dockerfile)) t).1 with
  | error err => simp
  | ok a =>
    dsimp only
    rw [run_bind]
    cases hsecond : (run answer (requireRegularFile (join dir metadata)) t).1 with
    | error | ok => simp

structure EmptyDir (dest : Bytes) (t : Tree) : Prop where
  named : storable (Path.components dest) = true
  way : ∀ above, above <+: Path.components dest → ∀ content, t.get ⟨Path.rooted dest, above⟩ ≠ some (.file content)
  empty : ∀ entry ∈ t.entries, entry.1.root = Path.rooted dest → Path.components dest <+: entry.1.comps →
    entry.1.comps = Path.components dest

def ImagesIn (dest : Bytes) (t : Tree) : Prop :=
  ∀ name node, Path.Part name → name ≠ Path.dotdot → t.get (under dest [name]) = some node →
    node = .dir ∧ (Prog.run answer (validateSourceImageDir (Path.join dest name)) t).1 = .ok ()

theorem unpacked_empty (hempty : EmptyDir dest t) : Unpacked dest [] t := by
  have hnone : ∀ names, Named names → t.get (under dest names) = none := by
    intro names hnames
    rw [Files.Tree.get, if_neg (by rw [top_under hnames]; decide), lookup_eq_none_iff]
    intro entry hentry
    rw [bne_iff_ne]
    intro hplace
    have hcomps : entry.1.comps = components dest ++ names := by rw [← hplace]; rfl
    have hsame := hempty.empty entry hentry (by rw [← hplace]; rfl) (hcomps ▸ prefix_append _ names)
    rw [hsame, self_eq_append_right] at hcomps
    exact hnames.ne_nil hcomps
  refine ⟨hempty.named, hempty.way, ?_, ?_, ?_⟩
  · intro names hnames
    rw [hnone names hnames]
    simp
  · intro names hnames
    rw [hnone names hnames]
    simp
  · intro item hitem
    cases hitem

theorem place_image (dest : Bytes) {file : Bytes} (hpart : Path.Part name) (hname : name ≠ dotdot)
    (hfile : file ∈ [dockerfile, metadata]) :
    Path.Part file ∧ file ≠ dotdot ∧ place (join (join dest name) file) = under dest [name, file] := by
  have hfilePart : Path.Part file ∧ file ≠ dotdot := by
    rcases mem_pair.1 hfile with rfl | rfl
    · exact ⟨⟨by decide, by decide, by decide⟩, by decide⟩
    · exact ⟨⟨by decide, by decide, by decide⟩, by decide⟩
  obtain ⟨hcomps, hroot⟩ := (inside_part hfilePart.1 hfilePart.2).components_join (join dest name)
  obtain ⟨hdir, hdirRoot⟩ := (inside_part hpart hname).components_join dest
  refine ⟨hfilePart.1, hfilePart.2, ?_⟩
  rw [place, hcomps, hroot, hdir, hdirRoot, components_part hpart hname,
    components_part hfilePart.1 hfilePart.2, append_assoc]
  rfl

def HasImageFiles (all : List Item) : Prop :=
  ∀ i ∈ all, ∀ file ∈ [dockerfile, metadata], (⟨i.comps.take 1 ++ [file], false⟩ : Item) ∈ all

theorem take_one_of_front {comps : List Bytes} (hpre : [name] <+: comps) : comps.take 1 = [name] := by
  obtain ⟨rest, rfl⟩ := hpre
  rfl

theorem named_image (hname : name ≠ dotdot) : Named [name] :=
  ⟨cons_ne_nil _ _, by rw [mem_singleton]; exact hname.symm⟩

theorem Unpacked.get_first (hu : Unpacked dest done t) (hname : name ≠ dotdot) :
    (∃ node, t.get (under dest [name]) = some node) ↔ ∃ i ∈ done, [name] <+: i.comps := by
  have hnamed := named_image hname
  constructor
  · rintro ⟨node, hget⟩
    cases node with
    | dir =>
      obtain ⟨i, hi, hneeds⟩ := (hu.dirs _ hnamed).1 hget
      exact ⟨i, hi, hneeds.1⟩
    | file content =>
      obtain ⟨i, hi, hfile⟩ := (hu.files _ hnamed).1 ⟨content, hget⟩
      exact ⟨i, hi, hfile.2 ▸ prefix_refl _⟩
  · rintro ⟨i, hi, hpre⟩
    by_cases hneeds : i.NeedsDir [name]
    · exact ⟨.dir, (hu.dirs _ hnamed).2 ⟨i, hi, hneeds⟩⟩
    · have hfile : i.IsFile [name] := by
        rw [Item.NeedsDir, not_and_or, not_or, not_not, Bool.not_eq_true] at hneeds
        exact hneeds.resolve_left (fun hnot => hnot hpre)
      obtain ⟨content, hget⟩ := (hu.files _ hnamed).2 ⟨i, hi, hfile⟩
      exact ⟨.file content, hget⟩

theorem imagesIn_iff (hu : Unpacked dest done t) (hparts : ∀ i ∈ done, ∀ name ∈ i.comps, Path.Part name)
    (hdone : ∀ i ∈ done, Named i.comps) : ImagesIn dest t ↔ HasImageFiles done := by
  constructor
  · intro himages i hi file hfile
    obtain ⟨name, rest, hcomps⟩ := exists_cons_of_ne_nil (hdone i hi).ne_nil
    have hpre : [name] <+: i.comps := ⟨rest, hcomps.symm⟩
    have hpart := hparts i hi name (hpre.subset mem_cons_self)
    have hname : name ≠ dotdot := by
      rintro rfl
      exact (hdone i hi).below (hpre.subset mem_cons_self)
    obtain ⟨node, hget⟩ := (hu.get_first hname).2 ⟨i, hi, hpre⟩
    obtain ⟨hfilePart, hfileName, hplace⟩ := place_image dest hpart hname hfile
    have hregular := (run_validateSourceImageDir _).1 (himages name node hpart hname hget).2 file hfile
    rw [hplace] at hregular
    obtain ⟨j, hj, hisDir, hjcomps⟩ := (hu.files [name, file] ⟨cons_ne_nil _ _, by
      simpa using ⟨hname.symm, hfileName.symm⟩⟩).1 hregular
    rw [take_one_of_front hpre, singleton_append, hjcomps, ← hisDir]
    exact hj
  · intro hfiles name node hpart hname hget
    obtain ⟨i, hi, hpre⟩ := (hu.get_first hname).1 ⟨node, hget⟩
    have hitems := hfiles i hi
    rw [take_one_of_front hpre] at hitems
    constructor
    · -- the directory above the Dockerfile
      have hdir := (hu.dirs [name] (named_image hname)).2
        ⟨_, hitems dockerfile (by simp), ⟨[dockerfile], rfl⟩, .inr (by simp)⟩
      rw [hget] at hdir
      exact Option.some.inj hdir
    · rw [run_validateSourceImageDir]
      intro file hfile
      obtain ⟨hfilePart, hfileName, hplace⟩ := place_image dest hpart hname hfile
      rw [hplace]
      refine (hu.files [name, file] ⟨cons_ne_nil _ _, ?_⟩).2 ⟨_, hitems file hfile, rfl, rfl⟩
      simpa using ⟨hname.symm, hfileName.symm⟩

/-! ### Accepted archives -/

theorem run_extractEntries_refused (entries : List ZipEntry) (hdest : components dest = [])
    (hvalid : ∀ e ∈ entries, ∃ cleaned, validateBuildArchivePath e.name = .ok cleaned) (hitems : items entries ≠ [])
    (extracted : Nat) : (run answer (extractEntries dest limit entries extracted) t).1 ≠ .ok () := by
  induction entries with
  | nil => exact absurd rfl hitems
  | cons e entries ih =>
    obtain ⟨⟨cleaned, hcleaned⟩, hvalid⟩ := forall_mem_cons.1 hvalid
    rw [extractEntries, hcleaned, attempt_ok]
    by_cases hskip : cleaned.isEmpty = true
    · rw [if_pos hskip]
      refine ih hvalid ?_
      rwa [items, filterMap_cons_none (by rw [item, hcleaned]; exact if_pos hskip)] at hitems
    · have hinside := (inside_of_valid hcleaned fun hnil => hskip (List.isEmpty_iff.2 hnil)).1
      have hpre : hasPrefix (join dest cleaned) (clean dest ++ ascii "/") = false := by
        rw [← Bool.not_eq_true, hinside.hasPrefix_join_iff dest, not_not]
        exact hdest
      rw [if_neg hskip, hinside.clean_of_join]
      dsimp only
      rw [if_pos hpre]
      intro hok
      cases hok

theorem items_named : ∀ i ∈ items entries, Named i.comps := by
  intro i hi
  obtain ⟨e, _, hitem⟩ := mem_filterMap.1 hi
  exact item_named hitem

theorem items_parts : ∀ i ∈ items entries, ∀ name ∈ i.comps, Path.Part name := by
  intro i hi name hname
  obtain ⟨e, _, hitem⟩ := mem_filterMap.1 hi
  unfold item at hitem
  split at hitem
  · cases hitem
  · split_ifs at hitem
    obtain rfl := Option.some.inj hitem
    exact (settled_components _).parts name (mem_reverse.2 hname)

theorem plainFile_intact (name : Bytes) {content : Bytes} (hlength : content.length < 2 ^ 64) :
    Intact (plainFile name content) :=
  ⟨rfl, rfl, (UInt64.toNat_ofNat_of_lt' hlength).symm⟩

theorem emptyDir_images : EmptyDir (ascii "/tmp/images") Tree.empty where
  named := by decide
  way := by
    intro above _ content
    rw [Files.Tree.get]
    split_ifs <;> intro hfile <;> cases hfile
  empty := by
    intro entry hentry
    cases hentry

def imageArchive : List ZipEntry :=
  [⟨ascii "a/", true, 0, .ok (), ⟨[], none, false⟩⟩, plainFile (ascii "a/Dockerfile") (ascii "FROM x"),
    plainFile (ascii "a\\metadata.json") (ascii "1"), plainFile (ascii "a/src/main") (ascii "m")]

end BuildkitService.Archive.Batch
