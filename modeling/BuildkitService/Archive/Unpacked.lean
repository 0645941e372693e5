import BuildkitService.Archive.Layout

/-!
# Batch archives that extract to what was promised

The entries of an archive are files and directories below the destination.
-/

namespace BuildkitService.Archive.Batch

open Strings Files List Prog Path

/-! ### Items -/

structure Item where
  comps : List Bytes
  isDir : Bool
  deriving DecidableEq, Repr

def item (e : ZipEntry) : Option Item :=
  match validateBuildArchivePath e.name with
  | .error _ => none
  | .ok cleaned => if cleaned.isEmpty then none else some ⟨Path.components cleaned, e.isDir⟩

def items (entries : List ZipEntry) : List Item := entries.filterMap item

def Item.NeedsDir (i : Item) (names : List Bytes) : Prop :=
  names <+: i.comps ∧ (i.isDir = true ∨ names ≠ i.comps)

def Item.IsFile (i : Item) (names : List Bytes) : Prop := i.isDir = false ∧ names = i.comps

def Item.Blocks (i j : Item) : Prop := i.isDir = false ∧ j.NeedsDir i.comps

instance (i : Item) (names : List Bytes) : Decidable (i.NeedsDir names) := by
  unfold Item.NeedsDir
  infer_instance

instance (i j : Item) : Decidable (i.Blocks j) := by
  unfold Item.Blocks
  infer_instance

def under (dest : Bytes) (names : List Bytes) : Place := ⟨Path.rooted dest, Path.components dest ++ names⟩

structure Named (names : List Bytes) : Prop where
  ne_nil : names ≠ []
  below : Path.dotdot ∉ names

structure Unpacked (dest : Bytes) (done : List Item) (t : Tree) : Prop where
  named : storable (Path.components dest) = true
  way : ∀ above, above <+: Path.components dest → ∀ content, t.get ⟨Path.rooted dest, above⟩ ≠ some (.file content)
  dirs : ∀ names, Named names → (t.get (under dest names) = some .dir ↔ ∃ i ∈ done, i.NeedsDir names)
  files : ∀ names, Named names →
    ((∃ content, t.get (under dest names) = some (.file content)) ↔ ∃ i ∈ done, i.IsFile names)
  stored : ∀ i ∈ done, storable i.comps = true

variable {dest : Bytes} {done : List Item} {t : Tree} {names d : List Bytes}

theorem top_under (hnames : Named names) : (under dest names).top = false := by
  obtain ⟨name, hname⟩ := exists_mem_of_ne_nil names hnames.ne_nil
  have hne : name ≠ dotdot := by
    rintro rfl
    exact hnames.below hname
  rw [Place.top, List.all_eq_false]
  exact ⟨name, mem_append_right _ hname, by simpa using hne⟩

/-! ### Directories -/

theorem Named.of_front (hd : dotdot ∉ d) (hne : names ≠ []) (hpre : names <+: d) : Named names :=
  ⟨hne, fun hmem => hd (hpre.subset hmem)⟩

theorem Unpacked.not_file (hu : Unpacked dest done t) (hnames : Named names)
    (hfree : ∀ i ∈ done, ¬ i.IsFile names) (content : Bytes) : t.get (under dest names) ≠ some (.file content) := by
  intro hfile
  obtain ⟨i, hi, hisFile⟩ := (hu.files names hnames).1 ⟨content, hfile⟩
  exact hfree i hi hisFile

theorem Unpacked.mkdirs_ok_iff (hu : Unpacked dest done t) (hd : dotdot ∉ d) :
    (Tree.mkdirs (rooted dest) [] (components dest ++ d) t).1 = .ok () ↔
      storable d = true ∧ ∀ i ∈ done, ∀ names, names ≠ [] → names <+: d → ¬ i.IsFile names := by
  rw [Tree.mkdirs_ok_iff]
  constructor
  · intro hway
    -- what holds of each name of `d`, at its place
    have hat : ∀ mid c, mid ++ [c] <+: d → t.get (under dest (mid ++ [c])) = some .dir ∨
        t.get (under dest (mid ++ [c])) = none ∧ storable [c] = true := by
      intro mid c hpre
      have hget := hway (components dest ++ mid) c
        (by rw [append_assoc]; exact (prefix_append_right_inj _).2 hpre)
      rwa [nil_append, append_assoc] at hget
    constructor
    · rw [storable_iff]
      intro c hc
      obtain ⟨mid, rest, rfl⟩ := append_of_mem hc
      have hpre : mid ++ [c] <+: mid ++ c :: rest := ⟨rest, by simp⟩
      rcases hat mid c hpre with hdir | ⟨_, hstorable⟩
      · obtain ⟨i, hi, hneeds⟩ := (hu.dirs _ (Named.of_front hd (by simp) hpre)).1 hdir
        exact storable_iff.1 (hu.stored i hi) c (hneeds.1.subset (by simp))
      · exact hstorable
    · intro i hi names hne hpre hfile
      obtain ⟨content, hget⟩ := (hu.files names (Named.of_front hd hne hpre)).2 ⟨i, hi, hfile⟩
      rw [← dropLast_append_getLast hne] at hpre hget
      rcases hat _ _ hpre with hdir | ⟨hnone, _⟩
      · rw [hdir] at hget
        cases hget
      · rw [hnone] at hget
        cases hget
  · rintro ⟨hstorable, hfree⟩ mid c hpre
    rw [nil_append]
    have hc : storable [c] = true := by
      have hall := storable_iff.1 (storable_append hu.named hstorable)
      exact hall c (hpre.subset (by simp))
    rcases prefix_of_append hpre with habove | ⟨names, hne, hnames, heq⟩
    · rcases Tree.dir_or_none (hu.way _ habove) with hdir | hnone
      · exact .inl hdir
      · exact .inr ⟨hnone, hc⟩
    · rw [heq]
      rcases Tree.dir_or_none (hu.not_file (Named.of_front hd hne hnames) fun i hi => hfree i hi names hne hnames)
        with hdir | hnone
      · exact .inl hdir
      · exact .inr ⟨hnone, hc⟩

theorem under_append_ne (hpre : ¬ names <+: d) {mid : List Bytes} (hmid : mid <+: components dest ++ d) :
    under dest names ≠ ⟨rooted dest, [] ++ mid⟩ := by
  intro heq
  have hcomps : components dest ++ names = mid := congrArg Place.comps heq
  rw [← hcomps] at hmid
  exact hpre ((prefix_append_right_inj _).1 hmid)

theorem exists_mem_snoc {P : Item → Prop} {i : Item} : (∃ j ∈ done ++ [i], P j) ↔ (∃ j ∈ done, P j) ∨ P i := by
  simp [or_and_right, exists_or]

theorem Unpacked.mkdirs (hu : Unpacked dest done t) (hd : dotdot ∉ d)
    (hok : (Tree.mkdirs (rooted dest) [] (components dest ++ d) t).1 = .ok ()) :
    Unpacked dest (done ++ [⟨d, true⟩]) (Tree.mkdirs (rooted dest) [] (components dest ++ d) t).2 := by
  obtain ⟨hstorable, hfree⟩ := (hu.mkdirs_ok_iff hd).1 hok
  -- below the destination the names on the way become directories, and the others stay
  have hnew : ∀ names, names ≠ [] → names <+: d →
      (Tree.mkdirs (rooted dest) [] (components dest ++ d) t).2.get (under dest names) = some .dir :=
    fun names hne hpre =>
      Tree.mkdirs_ok hok (append_ne_nil_of_right_ne_nil _ hne) ((prefix_append_right_inj _).2 hpre)
  have hold : ∀ names, ¬ names <+: d →
      (Tree.mkdirs (rooted dest) [] (components dest ++ d) t).2.get (under dest names) =
        t.get (under dest names) :=
    fun names hpre => Tree.get_mkdirs_of_ne fun mid _ hmid => under_append_ne hpre hmid
  refine ⟨hu.named, ?_, ?_, ?_, ?_⟩
  · intro above habove content
    by_cases hne : above = []
    · subst hne
      rw [Tree.get_of_top rfl]
      nofun
    · have hdir := Tree.mkdirs_ok hok hne (habove.trans (prefix_append _ d))
      rw [nil_append] at hdir
      rw [hdir]
      nofun
  · intro names hnames
    rw [exists_mem_snoc]
    by_cases hpre : names <+: d
    · exact iff_of_true (hnew names hnames.ne_nil hpre) (.inr ⟨hpre, .inl rfl⟩)
    · rw [hold names hpre, hu.dirs names hnames]
      exact ⟨.inl, fun hor => hor.resolve_right fun hneeds => hpre hneeds.1⟩
  · intro names hnames
    rw [exists_mem_snoc]
    by_cases hpre : names <+: d
    · rw [hnew names hnames.ne_nil hpre]
      refine iff_of_false (by simp) ?_
      rintro (⟨i, hi, hfile⟩ | hfile)
      · exact hfree i hi names hnames.ne_nil hpre hfile
      · cases hfile.1
    · rw [hold names hpre, hu.files names hnames]
      refine ⟨.inl, fun hor => hor.resolve_right ?_⟩
      intro hfile
      cases hfile.1
  · intro i hi
    rcases mem_append.1 hi with hi | hi
    · exact hu.stored i hi
    · rw [mem_singleton.1 hi]
      exact hstorable

/-! ### Files -/

variable {c : List Bytes} {target : Bytes} {t' : Tree}

theorem needsDir_file_iff (hc : c ≠ []) : Item.NeedsDir ⟨c, false⟩ names ↔ Item.NeedsDir ⟨c.dropLast, true⟩ names := by
  have hlast : names <+: c ↔ names = c ∨ names <+: c.dropLast := by
    conv_lhs => rw [← dropLast_append_getLast hc]
    rw [prefix_concat_iff, dropLast_append_getLast hc]
  have hproper : ¬ c <+: c.dropLast := by
    intro hpre
    have hlength := hpre.length_le
    have hpos := length_pos_iff.2 hc
    rw [length_dropLast] at hlength
    omega
  simp only [Item.NeedsDir, hlast, Bool.false_eq_true, false_or, true_or, and_true]
  constructor
  · rintro ⟨heq | hpre, hne⟩
    · exact absurd heq hne
    · exact hpre
  · intro hpre
    refine ⟨.inr hpre, ?_⟩
    rintro rfl
    exact hproper hpre

theorem Unpacked.file (hu : Unpacked dest (done ++ [⟨c.dropLast, true⟩]) t) (hc : Named c)
    (hstorable : storable c = true) (hfree : ∀ i ∈ done, ¬ i.NeedsDir c) {content : Bytes}
    (hfile : t'.get (under dest c) = some (.file content))
    (hframe : ∀ k, k ≠ under dest c → t'.get k = t.get k) : Unpacked dest (done ++ [⟨c, false⟩]) t' := by
  have hunder : ∀ {names}, names ≠ c → under dest names ≠ under dest c := by
    intro names hne heq
    exact hne (append_cancel_left (congrArg Place.comps heq))
  refine ⟨hu.named, ?_, ?_, ?_, ?_⟩
  · intro above habove content
    rw [hframe]
    · exact hu.way above habove content
    · intro heq
      have hlength := habove.length_le
      have hcomps : above = components dest ++ c := congrArg Place.comps heq
      have hpos := length_pos_iff.2 hc.ne_nil
      rw [hcomps, length_append] at hlength
      omega
  · intro names hnames
    rw [exists_mem_snoc, needsDir_file_iff hc.ne_nil, ← exists_mem_snoc]
    by_cases heq : names = c
    · subst heq
      rw [hfile]
      refine iff_of_false (by simp) ?_
      rw [exists_mem_snoc, ← needsDir_file_iff hc.ne_nil]
      rintro (⟨i, hi, hneeds⟩ | hneeds)
      · exact hfree i hi hneeds
      · exact hneeds.2.elim nofun fun hne => hne rfl
    · rw [hframe _ (hunder heq), hu.dirs names hnames]
  · intro names hnames
    by_cases heq : names = c
    · subst heq
      exact iff_of_true ⟨content, hfile⟩ ⟨⟨names, false⟩, by simp, rfl, rfl⟩
    · rw [hframe _ (hunder heq), hu.files names hnames, exists_mem_snoc, exists_mem_snoc]
      refine or_congr_right (iff_of_false ?_ ?_)
      · intro hisFile
        cases hisFile.1
      · intro hisFile
        exact heq hisFile.2
  · intro i hi
    rcases mem_append.1 hi with hi | hi
    · exact hu.stored i (mem_append_left _ hi)
    · rw [mem_singleton.1 hi]
      exact hstorable

/-! ### Running an entry -/

theorem run_copyBytes {path : Bytes} (htop : (place path).top = false) (content : Bytes) (written : Nat) {old : Bytes}
    (hold : t.get (place path) = some (.file old)) :
    ∃ t', run answer (copyBytes path content written) t = ((written + content.length, none), t') ∧
      t'.get (place path) = some (.file (old ++ content)) ∧ ∀ k, k ≠ place path → t'.get k = t.get k := by
  induction content generalizing written old t with
  | nil => exact ⟨t, rfl, by rw [append_nil, hold], fun _ _ => rfl⟩
  | cons b content ih =>
    obtain ⟨t', hrun, hfile, hframe⟩ := ih (written + 1) (Tree.get_set_self htop)
    refine ⟨t', ?_, ?_, ?_⟩
    · rw [copyBytes, run_bind, run_writeByte hold]
      dsimp only
      rw [hrun, length_cons, Nat.add_right_comm, Nat.add_assoc]
    · rw [hfile, append_assoc]
      rfl
    · intro k hk
      rw [hframe k hk, Tree.get_set_of_ne hk]

structure Intact (e : ZipEntry) : Prop where
  opened : e.opened = .ok ()
  ends : e.stream.err = none
  size : e.stream.content.length = e.declared

variable {e : ZipEntry} {remaining limit : Nat}

theorem run_copyWithLimit {path : Bytes} (htop : (place path).top = false) (hintact : Intact e)
    (hroom : e.declared ≤ remaining) (hold : t.get (place path) = some (.file [])) :
    ∃ t', run answer (copyWithLimit path e.stream remaining) t = ((e.declared, false, none), t') ∧
      t'.get (place path) = some (.file e.stream.content) ∧ ∀ k, k ≠ place path → t'.get k = t.get k := by
  have htake : e.stream.content.take remaining = e.stream.content := take_of_length_le (hintact.size.trans_le hroom)
  obtain ⟨t', hrun, hfile, hframe⟩ := run_copyBytes htop e.stream.content 0 hold
  have hprobe : e.stream.probe remaining = (false, none) := by
    rw [Stream.probe, if_neg (Nat.not_lt.2 (hintact.size.trans_le hroom)), hintact.ends]
  refine ⟨t', ?_, hfile, hframe⟩
  rw [copyWithLimit, htake, run_bind, hrun]
  dsimp only
  rw [hprobe, hintact.size, Nat.zero_add]
  rfl

def Admits (done : List Item) (i : Item) : Prop :=
  storable i.comps = true ∧ ∀ j ∈ done, ¬ j.Blocks i ∧ ¬ i.Blocks j

theorem admits_dir_iff (hdone : ∀ i ∈ done, Named i.comps) : Admits done ⟨c, true⟩ ↔
    storable c = true ∧ ∀ i ∈ done, ∀ names, names ≠ [] → names <+: c → ¬ i.IsFile names := by
  refine and_congr_right fun _ => forall₂_congr fun i hi => ?_
  constructor
  · rintro ⟨hblocks, _⟩ names _ hpre ⟨hfile, rfl⟩
    exact hblocks ⟨hfile, hpre, .inl rfl⟩
  · intro hfree
    refine ⟨?_, nofun⟩
    rintro ⟨hfile, hpre, _⟩
    exact hfree _ (hdone i hi).ne_nil hpre ⟨hfile, rfl⟩

theorem admits_file_iff (hdone : ∀ i ∈ done, Named i.comps) (hc : c ≠ []) : Admits done ⟨c, false⟩ ↔
    (storable c.dropLast = true ∧ ∀ i ∈ done, ∀ names, names ≠ [] → names <+: c.dropLast → ¬ i.IsFile names) ∧
      storable c = true ∧ ∀ i ∈ done, ¬ i.NeedsDir c := by
  constructor
  · rintro ⟨hstorable, hfree⟩
    refine ⟨⟨storable_of_subset (dropLast_subset c) hstorable, ?_⟩, hstorable, ?_⟩
    · rintro i hi names _ hpre ⟨hfile, rfl⟩
      exact (hfree i hi).1 ⟨hfile, (needsDir_file_iff hc).2 ⟨hpre, .inl rfl⟩⟩
    · intro i hi hneeds
      exact (hfree i hi).2 ⟨rfl, hneeds⟩
  · rintro ⟨⟨_, hway⟩, hstorable, hfree⟩
    refine ⟨hstorable, fun i hi => ⟨?_, ?_⟩⟩
    · rintro ⟨hfile, hneeds⟩
      exact hway i hi _ (hdone i hi).ne_nil ((needsDir_file_iff hc).1 hneeds).1 ⟨hfile, rfl⟩
    · rintro ⟨_, hneeds⟩
      exact hfree i hi hneeds

def Outcome {α : Type} (dest : Bytes) (done : List Item) (i : Item) (result : Except GoError α × Tree) (value : α) :
    Prop :=
  (Admits done i ∧ ∃ t', result = (.ok value, t') ∧ Unpacked dest (done ++ [i]) t') ∨
    (¬ Admits done i ∧ ∃ err t', result = (.error err, t'))

theorem mkdirAll_outcome (hu : Unpacked dest done t) (hdone : ∀ i ∈ done, Named i.comps) (hc : Named c)
    (htarget : place target = under dest c) :
    Outcome dest done ⟨c, true⟩ (run answer (mkdirAll target) t) () := by
  have hroot : rooted target = rooted dest := congrArg Place.root htarget
  have hcomps : components target = components dest ++ c := congrArg Place.comps htarget
  rw [Outcome, admits_dir_iff hdone, ← hu.mkdirs_ok_iff hc.below, run_mkdirAll, hroot, hcomps]
  have hafter := hu.mkdirs hc.below
  rcases hmade : Tree.mkdirs (rooted dest) [] (components dest ++ c) t with ⟨result, t'⟩
  rw [hmade] at hafter
  cases result with
  | ok a => exact .inl ⟨rfl, t', rfl, hafter rfl⟩
  | error err => exact .inr ⟨nofun, err, t', rfl⟩

theorem parent_under (hc : c ≠ []) : (under dest c).parent = under dest c.dropLast := by
  rw [Place.parent, under, dropLast_append_of_ne_nil hc]
  rfl

section

variable (hu : Unpacked dest (done ++ [⟨c.dropLast, true⟩]) t)

include hu

theorem Unpacked.create_ok_iff (hc : Named c)
    (htarget : place target = under dest c) (hparent : t.get (under dest c.dropLast) = some .dir) :
    (t.create target).1 = .ok () ↔ storable c = true ∧ ∀ i ∈ done, ¬ i.NeedsDir c := by
  have hcomps : storable (under dest c).comps = true ↔ storable c = true :=
    ⟨storable_of_subset (subset_append_right _ _), storable_append hu.named⟩
  rw [Tree.create_ok_iff, htarget, parent_under hc.ne_nil, hcomps, Ne, hu.dirs c hc, exists_mem_snoc,
    ← needsDir_file_iff hc.ne_nil]
  refine and_congr_right fun _ => ?_
  constructor
  · rintro ⟨_, hfree⟩ i hi hneeds
    exact hfree (.inl ⟨i, hi, hneeds⟩)
  · intro hfree
    refine ⟨hparent, ?_⟩
    rintro (⟨i, hi, hneeds⟩ | hneeds)
    · exact hfree i hi hneeds
    · exact hneeds.2.elim nofun fun hne => hne rfl

theorem extractFile_rest (hc : Named c)
    (htarget : place target = under dest c) (hintact : Intact e) (hroom : e.declared ≤ remaining)
    (hcreate : (t.create target).1 = .ok ()) (hstorable : storable c = true) (hfree : ∀ i ∈ done, ¬ i.NeedsDir c)
    (hmkdir : run answer (mkdirAll (dir target)) t' = (.ok (), t)) :
    ∃ t'', run answer (extractFile target e remaining limit) t' = (.ok e.declared, t'') ∧
      Unpacked dest (done ++ [⟨c, false⟩]) t'' := by
  have htop : (place target).top = false := by
    rw [htarget]
    exact top_under hc
  have hempty : (t.set (place target) (.file [])).get (place target) = some (.file []) := Tree.get_set_self htop
  obtain ⟨t'', hcopy, hfile, hframe⟩ := run_copyWithLimit htop hintact hroom hempty
  refine ⟨t'', ?_, hu.file hc hstorable hfree (htarget ▸ hfile) ?_⟩
  · rw [extractFile, run_attempt, hmkdir]
    dsimp only
    rw [run_attempt, run_create, Tree.create_ok hcreate]
    dsimp only
    rw [hintact.opened, attempt_ok, run_bind, hcopy]
    rfl
  · intro k hk
    rw [← htarget] at hk
    rw [hframe k hk, Tree.get_set_of_ne hk]

end

theorem extractFile_outcome (hu : Unpacked dest done t) (hdone : ∀ i ∈ done, Named i.comps) (hc : Named c)
    (htarget : place target = under dest c) (hparent : place (dir target) = under dest c.dropLast)
    (hintact : Intact e) (hroom : e.declared ≤ remaining) :
    Outcome dest done ⟨c, false⟩ (run answer (extractFile target e remaining limit) t) e.declared := by
  have hroot : rooted (dir target) = rooted dest := congrArg Place.root hparent
  have hcomps : components (dir target) = components dest ++ c.dropLast :=
    congrArg Place.comps hparent
  have hbelow : dotdot ∉ c.dropLast := fun hmem => hc.below (mem_of_mem_dropLast hmem)
  have hmkdir := run_mkdirAll (dir target) t
  have hafter := hu.mkdirs hbelow
  have hself : (Tree.mkdirs (rooted dest) [] (components dest ++ c.dropLast) t).1 = .ok () → _ :=
    Tree.get_mkdirs_self
  rw [hroot, hcomps] at hmkdir
  rw [Outcome, admits_file_iff hdone hc.ne_nil, ← hu.mkdirs_ok_iff hbelow]
  rcases hmade : Tree.mkdirs (rooted dest) [] (components dest ++ c.dropLast) t with ⟨result, t₁⟩
  rw [hmade] at hafter hself hmkdir
  cases result with
  | error err =>
    refine .inr ⟨nofun, err, t₁, ?_⟩
    rw [extractFile, run_attempt, hmkdir]
  | ok a =>
    have hcreate := (hafter rfl).create_ok_iff hc htarget (hself rfl)
    by_cases hok : (t₁.create target).1 = .ok ()
    · obtain ⟨hstorable, hfree⟩ := hcreate.1 hok
      obtain ⟨t', hrun, hunpacked⟩ :=
        extractFile_rest (hafter rfl) hc htarget hintact hroom hok hstorable hfree hmkdir
      exact .inl ⟨⟨rfl, hstorable, hfree⟩, t', hrun, hunpacked⟩
    · refine .inr ⟨fun hadmits => hok (hcreate.2 hadmits.2), ?_⟩
      rw [extractFile, run_attempt, hmkdir]
      dsimp only
      rw [run_attempt, run_create]
      rcases hmake : t₁.create target with ⟨result, t₂⟩
      rw [hmake] at hok
      cases result with
      | ok a => exact absurd rfl hok
      | error err => exact ⟨err, t₂, rfl⟩

/-! ### Running the archive -/

theorem named_of_inside {name : Bytes} (hinside : Inside name) : Named (components name) :=
  ⟨hinside.ne_nil, hinside.below⟩

theorem item_named {i : Item} (hitem : item e = some i) : Named i.comps := by
  unfold item at hitem
  cases hvalid : validateBuildArchivePath e.name with
  | error err =>
    rw [hvalid] at hitem
    cases hitem
  | ok cleaned =>
    rw [hvalid] at hitem
    dsimp only at hitem
    split_ifs at hitem with hempty
    obtain rfl := Option.some.inj hitem
    exact named_of_inside (inside_of_valid hvalid fun hnil => hempty (List.isEmpty_iff.2 hnil)).1

def AllAdmitted : List Item → List Item → Prop
  | _, [] => True
  | done, i :: rest => Admits done i ∧ AllAdmitted (done ++ [i]) rest

theorem not_blocks_self (i : Item) : ¬ i.Blocks i := by
  rintro ⟨hfile, _, hdir | hne⟩
  · rw [hfile] at hdir
    cases hdir
  · exact hne rfl

theorem allAdmitted_iff (rest : List Item) : AllAdmitted done rest ↔
    (∀ i ∈ rest, storable i.comps = true) ∧ ∀ i ∈ rest, ∀ j ∈ done ++ rest, ¬ j.Blocks i ∧ ¬ i.Blocks j := by
  induction rest generalizing done with
  | nil => simp [AllAdmitted]
  | cons i rest ih =>
    rw [AllAdmitted, ih, Admits, append_assoc, singleton_append]
    constructor
    · rintro ⟨⟨hstorable, hfree⟩, hstored, hapart⟩
      refine ⟨forall_mem_cons.2 ⟨hstorable, hstored⟩, forall_mem_cons.2 ⟨?_, hapart⟩⟩
      intro j hj
      rcases mem_append.1 hj with hj | hj
      · exact hfree j hj
      · rcases mem_cons.1 hj with rfl | hj
        · exact ⟨not_blocks_self j, not_blocks_self j⟩
        · exact (hapart j hj i (by simp)).symm
    · rintro ⟨hstored, hapart⟩
      obtain ⟨hstorable, hstored⟩ := forall_mem_cons.1 hstored
      obtain ⟨hfree, hapart⟩ := forall_mem_cons.1 hapart
      exact ⟨⟨hstorable, fun j hj => hfree j (mem_append_left _ hj)⟩, hstored, hapart⟩

theorem place_target {cleaned : Bytes} (hinside : Inside cleaned) :
    place (join dest cleaned) = under dest (components cleaned) ∧
      place (dir (join dest cleaned)) = under dest (components cleaned).dropLast := by
  obtain ⟨hcomps, hroot⟩ := hinside.components_join dest
  obtain ⟨hdir, hdirRoot⟩ := hinside.components_dir dest
  rw [place, place, hcomps, hroot, hdir, hdirRoot]
  exact ⟨rfl, rfl⟩

theorem run_extractEntries_cons {cleaned : Bytes} {entries : List ZipEntry} {extracted : Nat}
    (hvalid : validateBuildArchivePath e.name = .ok cleaned) (hcleaned : cleaned ≠ [])
    (hdest : components dest ≠ []) (hu : Unpacked dest done t) (hdone : ∀ i ∈ done, Named i.comps)
    (hintact : Intact e) (hroom : extracted + e.declared ≤ limit) :
    (Admits done ⟨components cleaned, e.isDir⟩ ∧ ∃ written t', written ≤ e.declared ∧
      Unpacked dest (done ++ [⟨components cleaned, e.isDir⟩]) t' ∧
      run answer (extractEntries dest limit (e :: entries) extracted) t =
        run answer (extractEntries dest limit entries (extracted + written)) t') ∨
    (¬ Admits done ⟨components cleaned, e.isDir⟩ ∧
      ∃ err t', run answer (extractEntries dest limit (e :: entries) extracted) t = (.error err, t')) := by
  have hinside := (inside_of_valid hvalid hcleaned).1
  obtain ⟨htarget, hparent⟩ := place_target hinside
  have hnamed := named_of_inside hinside
  have hpre := (hinside.hasPrefix_join_iff dest).2 hdest
  rw [extractEntries, hvalid, attempt_ok, if_neg (by simpa using hcleaned), hinside.clean_of_join]
  dsimp only
  rw [if_neg (by rw [hpre]; decide)]
  cases hdir : e.isDir with
  | true =>
    rw [if_pos rfl, run_attempt]
    rcases mkdirAll_outcome hu hdone hnamed htarget with ⟨hadmits, t', hrun, hunpacked⟩ | ⟨hadmits, err, t', hrun⟩
    · rw [hrun]
      exact .inl ⟨hadmits, 0, t', Nat.zero_le _, hunpacked, rfl⟩
    · rw [hrun]
      exact .inr ⟨hadmits, err, t', rfl⟩
  | false =>
    rw [if_neg (by decide), if_neg (by omega), run_attempt]
    have hremaining : e.declared ≤ limit - extracted := by omega
    rcases extractFile_outcome hu hdone hnamed htarget hparent hintact hremaining with
      ⟨hadmits, t', hrun, hunpacked⟩ | ⟨hadmits, err, t', hrun⟩
    · rw [hrun]
      exact .inl ⟨hadmits, e.declared, t', le_rfl, hunpacked, rfl⟩
    · rw [hrun]
      exact .inr ⟨hadmits, err, t', rfl⟩

theorem run_extractEntries (entries : List ZipEntry) (hdest : components dest ≠ [])
    (hvalid : ∀ e ∈ entries, ∃ cleaned, validateBuildArchivePath e.name = .ok cleaned)
    (hintact : ∀ e ∈ entries, Intact e) {extracted : Nat}
    (hroom : extracted + Ledger.total ZipEntry.declared entries ≤ limit) (hu : Unpacked dest done t)
    (hdone : ∀ i ∈ done, Named i.comps) :
    (AllAdmitted done (items entries) ∧ ∃ t', Unpacked dest (done ++ items entries) t' ∧
      run answer (extractEntries dest limit entries extracted) t = (.ok (), t')) ∨
    (¬ AllAdmitted done (items entries) ∧
      ∃ err t', run answer (extractEntries dest limit entries extracted) t = (.error err, t')) := by
  induction entries generalizing extracted done t with
  | nil => exact .inl ⟨trivial, t, by rwa [items, filterMap_nil, append_nil], rfl⟩
  | cons e entries ih =>
    obtain ⟨⟨cleaned, hcleaned⟩, hvalid⟩ := forall_mem_cons.1 hvalid
    obtain ⟨hwhole, hintact⟩ := forall_mem_cons.1 hintact
    rw [Ledger.total_cons] at hroom
    by_cases hskip : cleaned = []
    · -- the entry is skipped
      have hitem : item e = none := by
        rw [item, hcleaned, hskip]
        rfl
      have hrun : extractEntries dest limit (e :: entries) extracted = extractEntries dest limit entries extracted := by
        rw [extractEntries, hcleaned, attempt_ok, hskip]
        rfl
      rw [items, filterMap_cons_none hitem, hrun]
      exact ih hvalid hintact (by omega) hu hdone
    · have hitem : item e = some ⟨components cleaned, e.isDir⟩ := by
        rw [item, hcleaned]
        exact if_neg (by simpa using hskip)
      have hitems : items (e :: entries) = ⟨components cleaned, e.isDir⟩ :: items entries :=
        filterMap_cons_some hitem
      have hfits : extracted + e.declared ≤ limit := by omega
      rw [hitems, AllAdmitted]
      rcases run_extractEntries_cons hcleaned hskip hdest hu hdone hwhole hfits with
        ⟨hadmits, written, t', hwritten, hunpacked, hrun⟩ | ⟨hadmits, err, t', hrun⟩
      · have hdone' : ∀ i ∈ done ++ [⟨components cleaned, e.isDir⟩], Named i.comps := by
          intro i hi
          rcases mem_append.1 hi with hi | hi
          · exact hdone i hi
          · rw [mem_singleton.1 hi]
            exact item_named hitem
        have hleft : extracted + written + Ledger.total ZipEntry.declared entries ≤ limit := by omega
        have hrest := ih hvalid hintact hleft hunpacked hdone'
        rw [append_assoc, singleton_append] at hrest
        rw [hrun]
        rcases hrest with ⟨hall, htree⟩ | ⟨hall, hfails⟩
        · exact .inl ⟨⟨hadmits, hall⟩, htree⟩
        · exact .inr ⟨fun hboth => hall hboth.2, hfails⟩
      · exact .inr ⟨fun hboth => hadmits hboth.1, err, t', hrun⟩

end BuildkitService.Archive.Batch
