import BuildkitService.Daemon.ContextHash

/-!
# The digest of a source context in the batch tool

`internal/buildbatch/source_hash.go`.
-/

namespace BuildkitService.Batch

open Strings
open List hiding Vector

inductive FileKind where
  | dir
  | symlink
  | regular
  /-- A device, a socket or a pipe. -/
  | other
  deriving DecidableEq, Repr

structure WalkedPath where
  rel : Bytes
  err : Option Bytes
  info : Except Bytes FileKind

structure SourceReader where
  lstat : Bytes → Except Bytes (FileKind × Fin 512)
  readlink : Bytes → Except Bytes Bytes
  content : Bytes → Except (Daemon.HashStage × Bytes) Bytes

def walkPaths : List WalkedPath → Except Bytes (List Bytes)
  | [] => .ok []
  | walked :: rest =>
      match walked.err with
      | some err => .error err
      | none =>
          if walked.rel.isEmpty then walkPaths rest
          else match walked.info with
            | .error err => .error err
            | .ok .other => walkPaths rest
            | .ok _ => (walkPaths rest).map (walked.rel :: ·)

def octal (perm : Fin 512) : Bytes := (Nat.toDigits 8 perm.val).map fun c => UInt8.ofNat c.toNat

def entryHead (kind rel : Bytes) (perm : Fin 512) : Bytes := kind ++ rel ++ [0] ++ octal perm ++ [0]

def hashPath (reader : SourceReader) (rel : Bytes) : Except Bytes Bytes :=
  match reader.lstat rel with
  | .error err => .error (ascii "stat source context path " ++ rel ++ ascii ": " ++ err)
  | .ok (.dir, perm) => .ok (entryHead (ascii "dir:") rel perm)
  | .ok (.symlink, perm) =>
      match reader.readlink rel with
      | .error err => .error (ascii "read source context symlink " ++ rel ++ ascii ": " ++ err)
      | .ok target => .ok (entryHead (ascii "symlink:") rel perm ++ target ++ [0])
  | .ok (_, perm) =>
      match reader.content rel with
      | .error (stage, err) => .error (stage.text rel ++ err)
      | .ok content => .ok (entryHead (ascii "file:") rel perm ++ content ++ [0])

def hashPaths (reader : SourceReader) : List Bytes → Bytes → Except Bytes Bytes
  | [], input => .ok input
  | rel :: rels, input =>
      match hashPath reader rel with
      | .error err => .error err
      | .ok record => hashPaths reader rels (input ++ record)

def sourceContextContentHash (sum256 : Bytes → Vector UInt8 32) (reader : SourceReader)
    (walked : List WalkedPath) : Except Bytes Bytes :=
  match walkPaths walked with
  | .error err => .error (ascii "walk source context for scheduling hash: " ++ err)
  | .ok rels =>
      match hashPaths reader (rels.insertionSort fun a b => (!less b a) = true) [] with
      | .error err => .error err
      | .ok input => .ok (ascii "source:" ++ Daemon.hexEncode (sum256 input).toList)

/-! ### The stream -/

inductive Node where
  | dir
  | symlink (target : Bytes)
  | file (content : Bytes)
  deriving DecidableEq, Repr

structure SourceEntry where
  rel : Bytes
  perm : Fin 512
  node : Node
  deriving DecidableEq, Repr

def SourceEntry.kind (entry : SourceEntry) : FileKind :=
  match entry.node with
  | .dir => .dir
  | .symlink _ => .symlink
  | .file _ => .regular

def SourceEntry.fields (entry : SourceEntry) : List Bytes :=
  match entry.node with
  | .dir => [ascii "dir:" ++ entry.rel, octal entry.perm]
  | .symlink target => [ascii "symlink:" ++ entry.rel, octal entry.perm, target]
  | .file content => [ascii "file:" ++ entry.rel, octal entry.perm, content]

structure SourceTree where
  entries : List SourceEntry
  distinct : (entries.map SourceEntry.rel).Nodup
  named : ∀ entry ∈ entries, 0 ∉ entry.rel
  linked : ∀ entry ∈ entries, ∀ target, entry.node = .symlink target → 0 ∉ target

def SourceTree.sorted (tree : SourceTree) : List SourceEntry :=
  tree.entries.insertionSort fun a b => Daemon.pathLe a.rel b.rel = true

def SourceTree.stream (tree : SourceTree) : Bytes :=
  tree.sorted.flatMap fun entry => Fields.terminated 0 entry.fields

structure ShowsTree (reader : SourceReader) (walked : List WalkedPath) (tree : SourceTree) : Prop where
  walk : ∃ rels, walkPaths walked = .ok rels ∧ rels.Perm (tree.entries.map SourceEntry.rel)
  lstat : ∀ entry ∈ tree.entries, reader.lstat entry.rel = .ok (entry.kind, entry.perm)
  readlink : ∀ entry ∈ tree.entries, ∀ target, entry.node = .symlink target →
    reader.readlink entry.rel = .ok target
  content : ∀ entry ∈ tree.entries, ∀ content, entry.node = .file content →
    reader.content entry.rel = .ok content

variable {walked : List WalkedPath} {reader : SourceReader} {tree : SourceTree}

theorem hashPath_fields (hshows : ShowsTree reader walked tree) {entry : SourceEntry}
    (hentry : entry ∈ tree.entries) : hashPath reader entry.rel = .ok (Fields.terminated 0 entry.fields) := by
  rw [hashPath, hshows.lstat entry hentry, SourceEntry.kind]
  cases hnode : entry.node with
  | dir => simp [entryHead, SourceEntry.fields, hnode, Fields.terminated]
  | symlink target =>
    dsimp only
    rw [hshows.readlink entry hentry target hnode]
    simp [entryHead, SourceEntry.fields, hnode, Fields.terminated]
  | file content =>
    dsimp only
    rw [hshows.content entry hentry content hnode]
    simp [entryHead, SourceEntry.fields, hnode, Fields.terminated]

theorem hashPaths_fields (hshows : ShowsTree reader walked tree) {entries : List SourceEntry}
    (hentries : ∀ entry ∈ entries, entry ∈ tree.entries) (input : Bytes) :
    hashPaths reader (entries.map SourceEntry.rel) input =
      .ok (input ++ entries.flatMap fun entry => Fields.terminated 0 entry.fields) := by
  induction entries generalizing input with
  | nil =>
    rw [flatMap_nil, append_nil]
    rfl
  | cons entry entries ih =>
    rw [map_cons, hashPaths, hashPath_fields hshows (hentries entry mem_cons_self)]
    dsimp only
    rw [ih fun other hother => hentries other (mem_cons_of_mem _ hother), flatMap_cons,
      append_assoc]

theorem sourceContextContentHash_stream (sum256 : Bytes → Vector UInt8 32)
    (hshows : ShowsTree reader walked tree) : sourceContextContentHash sum256 reader walked =
      .ok (ascii "source:" ++ Daemon.hexEncode (sum256 tree.stream).toList) := by
  obtain ⟨rels, hwalk, hperm⟩ := hshows.walk
  have hmap : tree.sorted.map SourceEntry.rel =
      (tree.entries.map SourceEntry.rel).insertionSort fun a b => Daemon.pathLe a b = true :=
    map_insertionSort _ _ _ _ fun _ _ _ _ => Iff.rfl
  have hsorted : rels.insertionSort (fun a b => (!less b a) = true) = tree.sorted.map SourceEntry.rel := by
    rw [hmap]
    exact Daemon.insertionSort_perm hperm
  have hinput : hashPaths reader (tree.sorted.map SourceEntry.rel) [] = .ok ([] ++ tree.stream) :=
    hashPaths_fields hshows (fun entry hentry => (perm_insertionSort _ _).mem_iff.1 hentry) []
  rw [sourceContextContentHash, hwalk]
  dsimp only
  rw [hsorted, hinput]
  rfl

/-! ### What the stream tells -/

def octalValue (s : Bytes) : Nat := s.foldl (fun n b => 8 * n + (b.toNat - 0x30)) 0

theorem octalValue_octal : ∀ perm : Fin 512, octalValue (octal perm) = perm.val := by decide +kernel

theorem octal_injective {p q : Fin 512} (heq : octal p = octal q) : p = q := by
  apply Fin.ext
  rw [← octalValue_octal, ← octalValue_octal, heq]

theorem zero_not_mem_octal : ∀ perm : Fin 512, (0 : UInt8) ∉ octal perm := by decide +kernel

theorem fields_ne_nil (entry : SourceEntry) : entry.fields ≠ [] := by
  rw [SourceEntry.fields]
  split
  · exact cons_ne_nil _ _
  · exact cons_ne_nil _ _
  · exact cons_ne_nil _ _

theorem fields_append_inj (entry other : SourceEntry) (s t : List Bytes)
    (heq : entry.fields ++ s = other.fields ++ t) : entry = other ∧ s = t := by
  obtain ⟨rel, perm, node⟩ := entry
  obtain ⟨rel', perm', node'⟩ := other
  have hdiffer {kind kind' : Bytes} (hkind : kind.head? ≠ kind'.head?) (hne : kind ≠ [] ∧ kind' ≠ []) :
      kind ++ rel ≠ kind' ++ rel' := by
    intro h
    have hhead := congrArg head? h
    rw [head?_append_of_ne_nil _ hne.1, head?_append_of_ne_nil _ hne.2] at hhead
    exact hkind hhead
  cases node with
  | dir =>
    cases node' with
    | dir =>
      simp only [SourceEntry.fields, cons_append, nil_append, cons.injEq] at heq
      rw [append_cancel_left heq.1, octal_injective heq.2.1]
      exact ⟨rfl, heq.2.2⟩
    | symlink | file => exact absurd (cons.inj heq).1 (hdiffer (by decide) (by decide))
  | symlink target =>
    cases node' with
    | dir | file => exact absurd (cons.inj heq).1 (hdiffer (by decide) (by decide))
    | symlink target' =>
      simp only [SourceEntry.fields, cons_append, nil_append, cons.injEq] at heq
      rw [append_cancel_left heq.1, octal_injective heq.2.1, heq.2.2.1]
      exact ⟨rfl, heq.2.2.2⟩
  | file content =>
    cases node' with
    | dir | symlink => exact absurd (cons.inj heq).1 (hdiffer (by decide) (by decide))
    | file content' =>
      simp only [SourceEntry.fields, cons_append, nil_append, cons.injEq] at heq
      rw [append_cancel_left heq.1, octal_injective heq.2.1, heq.2.2.1]
      exact ⟨rfl, heq.2.2.2⟩

def SourceTree.Textual (tree : SourceTree) : Prop :=
  ∀ entry ∈ tree.entries, ∀ content, entry.node = .file content → 0 ∉ content

theorem mem_sorted_entries {entry : SourceEntry} : entry ∈ tree.sorted ↔ entry ∈ tree.entries :=
  (perm_insertionSort _ _).mem_iff

theorem zero_not_mem_fields (htext : tree.Textual) :
    ∀ field ∈ tree.sorted.flatMap SourceEntry.fields, (0 : UInt8) ∉ field := by
  intro field hfield
  obtain ⟨entry, hentry, hin⟩ := mem_flatMap.1 hfield
  rw [mem_sorted_entries] at hentry
  have hnamed {kind : Bytes} (hkind : (0 : UInt8) ∉ kind) : (0 : UInt8) ∉ kind ++ entry.rel := by
    rw [mem_append, not_or]
    exact ⟨hkind, tree.named entry hentry⟩
  rw [SourceEntry.fields] at hin
  split at hin
  · simp only [mem_cons, not_mem_nil, or_false] at hin
    rcases hin with rfl | rfl
    · exact hnamed (by decide)
    · exact zero_not_mem_octal _
  · rename_i target hnode
    simp only [mem_cons, not_mem_nil, or_false] at hin
    rcases hin with rfl | rfl | rfl
    · exact hnamed (by decide)
    · exact zero_not_mem_octal _
    · exact tree.linked entry hentry _ hnode
  · rename_i content hnode
    simp only [mem_cons, not_mem_nil, or_false] at hin
    rcases hin with rfl | rfl | rfl
    · exact hnamed (by decide)
    · exact zero_not_mem_octal _
    · exact htext entry hentry _ hnode

theorem mem_entries_iff_of_stream {a b : SourceTree} (ha : a.Textual) (hb : b.Textual)
    (hstream : a.stream = b.stream) (entry : SourceEntry) : entry ∈ a.entries ↔ entry ∈ b.entries := by
  rw [SourceTree.stream, SourceTree.stream, ← Fields.terminated_flatMap, ← Fields.terminated_flatMap] at hstream
  have heq := Fields.terminated_injective (zero_not_mem_fields ha) (zero_not_mem_fields hb) hstream
  have hsorted : a.sorted = b.sorted := Fields.flatMap_injective fields_ne_nil fields_append_inj heq
  rw [← mem_sorted_entries, hsorted, mem_sorted_entries]

/-- Contexts without zero bytes that differ have different streams. -/
theorem streams_separate_contexts :
    (∀ a b : Daemon.RegularFiles, (∀ file ∈ a.files, 0 ∉ file.2) → (∀ file ∈ b.files, 0 ∉ file.2) →
      (∃ file, ¬ (file ∈ a.files ↔ file ∈ b.files)) → a.stream ≠ b.stream) ∧
    (∀ a b : SourceTree, a.Textual → b.Textual →
      (∃ entry, ¬ (entry ∈ a.entries ↔ entry ∈ b.entries)) → a.stream ≠ b.stream) := by
  constructor
  · rintro a b ha hb ⟨file, hdiffer⟩ hstream
    exact hdiffer (Daemon.mem_iff_of_stream ha hb hstream file)
  · rintro a b ha hb ⟨entry, hdiffer⟩ hstream
    exact hdiffer (mem_entries_iff_of_stream ha hb hstream entry)

def oneFile : Daemon.RegularFiles := ⟨[(ascii "a", [0x78, 0, 0x62, 0, 0x79])], by decide, by decide⟩

def twoFiles : Daemon.RegularFiles := ⟨[(ascii "a", ascii "x"), (ascii "b", ascii "y")], by decide, by decide⟩

def oneSource : SourceTree where
  entries := [⟨ascii "a", 420, .file ([0x78, 0] ++ ascii "file:b" ++ [0] ++ ascii "644" ++ [0, 0x79])⟩]
  distinct := by decide
  named := by decide
  linked := by simp

def twoSources : SourceTree where
  entries := [⟨ascii "a", 420, .file (ascii "x")⟩, ⟨ascii "b", 420, .file (ascii "y")⟩]
  distinct := by decide
  named := by decide
  linked := by simp

theorem zero_bytes_confuse :
    oneFile.files.length ≠ twoFiles.files.length ∧ oneFile.stream = twoFiles.stream ∧
      oneSource.entries.length ≠ twoSources.entries.length ∧ oneSource.stream = twoSources.stream := by
  decide +kernel

def otherFile : Daemon.RegularFiles := ⟨[(ascii "a", ascii "xb")], by decide, by decide⟩

theorem streams_separate_contexts_files : otherFile.stream ≠ twoFiles.stream := by
  refine streams_separate_contexts.1 otherFile twoFiles (by decide) (by decide) ⟨(ascii "b", ascii "y"), ?_⟩
  decide

/-! ### What the key tells -/

/-- Two contexts have one key exactly if they have the same entries. -/
theorem source_key_eq_iff {reader' : SourceReader} {walked' : List WalkedPath} {a b : SourceTree}
    (sum256 : Bytes → Vector UInt8 32) (ha : ShowsTree reader walked a) (hb : ShowsTree reader' walked' b)
    (hcollision : sum256 a.stream = sum256 b.stream → a.stream = b.stream) (hatext : a.Textual)
    (hbtext : b.Textual) :
    sourceContextContentHash sum256 reader walked = sourceContextContentHash sum256 reader' walked' ↔
      ∀ entry, entry ∈ a.entries ↔ entry ∈ b.entries := by
  rw [sourceContextContentHash_stream sum256 ha, sourceContextContentHash_stream sum256 hb,
    Daemon.key_eq_iff hcollision]
  refine ⟨mem_entries_iff_of_stream hatext hbtext, fun hentries => ?_⟩
  rw [SourceTree.stream, SourceTree.sorted, Daemon.sorted_eq_of_mem_iff a.distinct b.distinct hentries]
  rfl

def twoReader : SourceReader where
  lstat := fun _ => .ok (.regular, 420)
  readlink := fun _ => .error []
  content := fun rel => .ok (if rel = ascii "a" then ascii "x" else ascii "y")

theorem source_key_eq_iff_two :
    let sum256 (input : Bytes) : Vector UInt8 32 := .replicate 32 (.ofNat input.length)
    let walk (rels : List String) : List WalkedPath := rels.map fun rel => ⟨ascii rel, none, .ok .regular⟩
    sourceContextContentHash sum256 twoReader (walk ["a", "b"]) =
      sourceContextContentHash sum256 twoReader (walk ["b", "a"]) := by
  intro sum256 walk
  have hshows : ∀ rels, walkPaths (walk rels) = .ok (rels.map ascii) → (rels.map ascii).Perm [ascii "a", ascii "b"] →
      ShowsTree twoReader (walk rels) twoSources := by
    refine fun rels hwalk hperm => ⟨⟨_, hwalk, hperm⟩, by decide, by simp [twoSources], ?_⟩
    simp only [twoSources, forall_mem_cons, Node.file.injEq]
    exact ⟨fun _ h => h ▸ rfl, fun _ h => h ▸ rfl, forall_mem_nil _⟩
  have htext : twoSources.Textual := by
    simp only [SourceTree.Textual, twoSources, forall_mem_cons, Node.file.injEq, forall_eq']
    exact ⟨by decide, by decide, forall_mem_nil _⟩
  exact (source_key_eq_iff sum256 (hshows _ rfl (by decide)) (hshows _ rfl (by decide)) (fun _ => rfl)
    htext htext).2 fun _ => Iff.rfl

end BuildkitService.Batch
