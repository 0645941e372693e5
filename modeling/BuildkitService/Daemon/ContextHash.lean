import BuildkitService.Daemon.Server
import BuildkitService.Lib.Fields

/-!
# What the digest of a context is made of

`sourceContextContentHash` of the daemon feeds SHA-256 with the path and the content of every
regular file, in the order of the paths, each with a zero byte behind it.
-/

namespace BuildkitService.Daemon

open Strings Prog
open List hiding Vector

structure RegularFiles where
  files : List (Bytes × Bytes)
  distinct : (files.map Prod.fst).Nodup
  named : ∀ file ∈ files, 0 ∉ file.1

def pathLe (a b : Bytes) : Bool := !less b a

def hashedFile (file : Bytes × Bytes) : Bytes := file.1 ++ [0] ++ file.2 ++ [0]

def RegularFiles.sorted (context : RegularFiles) : List (Bytes × Bytes) :=
  context.files.insertionSort fun a b => pathLe a.1 b.1 = true

def RegularFiles.stream (context : RegularFiles) : Bytes := context.sorted.flatMap hashedFile

/-! ### The stream is what is hashed -/

theorem pathLe_iff {a b : Bytes} : pathLe a b = true ↔ a ≤ b := by
  rw [pathLe, Bool.not_eq_true', ← Bool.not_eq_true, less_iff]
  exact Iff.rfl

instance : Std.Total fun a b : Bytes => pathLe a b = true where
  total a b := by
    rw [pathLe_iff, pathLe_iff]
    exact List.le_total a b

instance : IsTrans Bytes fun a b => pathLe a b = true where
  trans a b c := by
    rw [pathLe_iff, pathLe_iff, pathLe_iff]
    exact List.le_trans

instance : Std.Antisymm fun a b : Bytes => pathLe a b = true where
  antisymm a b := by
    rw [pathLe_iff, pathLe_iff]
    exact List.le_antisymm

structure Shows {σ : Type} (answer : (o : ServerOp) → σ → ServerRes o × σ) (dir : Bytes)
    (context : RegularFiles) : Prop where
  walk : ∀ s, ∃ rels, contextFiles (answer (.walkDir .files dir) s).1 = .ok rels ∧
    rels.Perm (context.files.map Prod.fst)
  content : ∀ s, ∀ file ∈ context.files, (answer (.hashFile (Path.join dir file.1)) s).1 = .ok file.2

variable {σ : Type} {answer : (o : ServerOp) → σ → ServerRes o × σ} {dir : Bytes} {context : RegularFiles}

theorem run_hashInput (hshows : Shows answer dir context) {files : List (Bytes × Bytes)}
    (hfiles : ∀ file ∈ files, file ∈ context.files) (input : Bytes) (s : σ) :
    (run answer (hashInput dir (files.map Prod.fst) input) s).1 =
      .ok (input ++ files.flatMap hashedFile) := by
  induction files generalizing input s with
  | nil =>
    rw [flatMap_nil, append_nil]
    rfl
  | cons file files ih =>
    have hcontent := hshows.content s file (hfiles file mem_cons_self)
    rw [map_cons, hashInput, run_bind]
    have hread : run answer (hashFile (Path.join dir file.1)) s =
        answer (.hashFile (Path.join dir file.1)) s := rfl
    rw [hread, hcontent]
    have hrest := ih (fun other hother => hfiles other (mem_cons_of_mem _ hother))
      (input ++ file.1 ++ [0] ++ file.2 ++ [0]) (answer (.hashFile (Path.join dir file.1)) s).2
    refine hrest.trans ?_
    rw [flatMap_cons, hashedFile]
    simp only [append_assoc]

theorem insertionSort_perm {rels others : List Bytes} (hperm : rels.Perm others) :
    (rels.insertionSort fun a b => pathLe a b = true) = others.insertionSort fun a b => pathLe a b = true := by
  refine Perm.eq_of_pairwise' (r := fun a b => pathLe a b = true) ?_ ?_ ?_
  · exact pairwise_insertionSort _ _
  · exact pairwise_insertionSort _ _
  · exact (perm_insertionSort _ _).trans (hperm.trans (perm_insertionSort _ _).symm)

theorem map_fst_sorted (context : RegularFiles) {rels : List Bytes}
    (hperm : rels.Perm (context.files.map Prod.fst)) :
    rels.insertionSort (fun a b => pathLe a b = true) = context.sorted.map Prod.fst := by
  have hmap : context.sorted.map Prod.fst =
      (context.files.map Prod.fst).insertionSort fun a b => pathLe a b = true :=
    map_insertionSort _ _ _ _ fun _ _ _ _ => Iff.rfl
  rw [hmap]
  exact insertionSort_perm hperm

theorem run_sourceContextContentHash (lib : RoutingLib) (hshows : Shows answer dir context) (s : σ) :
    (run answer (sourceContextContentHash lib dir) s).1 =
      .ok (ascii "source:" ++ hexEncode (lib.sum256 context.stream).toList) := by
  obtain ⟨rels, hwalk, hperm⟩ := hshows.walk s
  rw [sourceContextContentHash, run_bind]
  have hread : run answer (walkDir .files dir) s = answer (.walkDir .files dir) s := rfl
  rw [hread, hwalk]
  dsimp only
  rw [run_attempt]
  have hsorted : rels.insertionSort (fun a b => (!less b a) = true) = context.sorted.map Prod.fst :=
    map_fst_sorted context hperm
  rw [hsorted]
  have hinput : (run answer (hashInput dir (context.sorted.map Prod.fst) [])
      (answer (.walkDir .files dir) s).2).1 = .ok context.stream :=
    run_hashInput hshows (fun file hfile => (perm_insertionSort _ _).mem_iff.1 hfile) [] _
  cases hrun : run answer (hashInput dir (context.sorted.map Prod.fst) []) (answer (.walkDir .files dir) s).2 with
  | mk result s' =>
    rw [hrun] at hinput
    rw [show result = .ok context.stream from hinput]
    rfl

/-! ### What the stream tells -/

def fileFields (file : Bytes × Bytes) : List Bytes := [file.1, file.2]

theorem stream_eq_terminated (context : RegularFiles) :
    context.stream = Fields.terminated 0 (context.sorted.flatMap fileFields) := by
  rw [RegularFiles.stream, Fields.terminated_flatMap]
  congr 1
  funext file
  simp [hashedFile, fileFields, Fields.terminated]

theorem mem_sorted {file : Bytes × Bytes} : file ∈ context.sorted ↔ file ∈ context.files :=
  (perm_insertionSort _ _).mem_iff

theorem mem_iff_of_stream {a b : RegularFiles} (ha : ∀ file ∈ a.files, 0 ∉ file.2)
    (hb : ∀ file ∈ b.files, 0 ∉ file.2) (hstream : a.stream = b.stream) (file : Bytes × Bytes) :
    file ∈ a.files ↔ file ∈ b.files := by
  have hfields (context : RegularFiles) (hcontents : ∀ file ∈ context.files, 0 ∉ file.2) :
      ∀ field ∈ context.sorted.flatMap fileFields, (0 : UInt8) ∉ field := by
    intro field hfield
    obtain ⟨file, hfile, hin⟩ := mem_flatMap.1 hfield
    rw [mem_sorted] at hfile
    simp only [fileFields, mem_cons, not_mem_nil, or_false] at hin
    rcases hin with rfl | rfl
    · exact context.named file hfile
    · exact hcontents file hfile
  rw [stream_eq_terminated, stream_eq_terminated] at hstream
  have heq := Fields.terminated_injective (hfields a ha) (hfields b hb) hstream
  have hsorted : a.sorted = b.sorted := by
    refine Fields.flatMap_injective (fun _ => cons_ne_nil _ _) ?_ heq
    intro f g s t hfg
    simp only [cons_append, cons.injEq, nil_append] at hfg
    exact ⟨Prod.ext hfg.1 hfg.2.1, hfg.2.2⟩
  rw [← mem_sorted, hsorted, mem_sorted]

/-! ### What the key tells -/

theorem hexEncode_injective : Function.Injective hexEncode := by
  intro a b hab
  let value (d : UInt8) : UInt8 := if d < 0x3A then d - 0x30 else d - 0x57
  have hback : ∀ n < 256, value (hexDigit (UInt8.ofNat n / 16)) * 16 + value (hexDigit (UInt8.ofNat n % 16)) =
      UInt8.ofNat n := by decide +kernel
  have hvalue (x : UInt8) : value (hexDigit (x / 16)) * 16 + value (hexDigit (x % 16)) = x := by
    have hx := hback x.toNat x.toNat_lt
    rwa [UInt8.ofNat_toNat] at hx
  refine Fields.flatMap_injective (fun _ => cons_ne_nil _ _) ?_ hab
  intro x y s t hxy
  simp only [cons_append, cons.injEq, nil_append] at hxy
  refine ⟨?_, hxy.2.2⟩
  rw [← hvalue x, hxy.1, hxy.2.1, hvalue y]

theorem sorted_eq_of_mem_iff {ρ : Type} {key : ρ → Bytes} {l l' : List ρ} (hl : (l.map key).Nodup)
    (hl' : (l'.map key).Nodup) (hmem : ∀ r, r ∈ l ↔ r ∈ l') :
    l.insertionSort (fun a b => pathLe (key a) (key b) = true) =
      l'.insertionSort fun a b => pathLe (key a) (key b) = true := by
  have hperm : l.Perm l' := (perm_ext_iff_of_nodup (Nodup.of_map _ hl) (Nodup.of_map _ hl')).2 hmem
  have : Std.Total fun a b => pathLe (key a) (key b) = true :=
    ⟨fun a b => Std.Total.total (r := fun a b => pathLe a b = true) (key a) (key b)⟩
  have : IsTrans ρ fun a b => pathLe (key a) (key b) = true :=
    ⟨fun a b c => trans_of fun a b => pathLe a b = true⟩
  refine Perm.eq_of_pairwise ?_ (pairwise_insertionSort _ l) (pairwise_insertionSort _ l')
    ((perm_insertionSort _ _).trans (hperm.trans (perm_insertionSort _ _).symm))
  intro r r' hr hr' hle hge
  rw [mem_insertionSort] at hr hr'
  exact inj_on_of_nodup_map hl hr ((hmem r').2 hr') (List.le_antisymm (pathLe_iff.1 hle) (pathLe_iff.1 hge))

theorem key_eq_iff {ε : Type} {digest : Bytes → Vector UInt8 32} {x y : Bytes}
    (hcollision : digest x = digest y → x = y) :
    (.ok (ascii "source:" ++ hexEncode (digest x).toList) : Except ε Bytes) =
      .ok (ascii "source:" ++ hexEncode (digest y).toList) ↔ x = y := by
  rw [Except.ok.injEq, append_cancel_left_eq, hexEncode_injective.eq_iff, Vector.toList_inj]
  exact ⟨hcollision, congrArg digest⟩

/-- Two contexts have one key exactly if they have the same files, wherever they are and in
whatever order they are walked. -/
theorem context_key_eq_iff {τ : Type} {answer' : (o : ServerOp) → τ → ServerRes o × τ} {dir' : Bytes}
    {a b : RegularFiles} (lib : RoutingLib) (ha : Shows answer dir a) (hb : Shows answer' dir' b)
    (hcollision : lib.sum256 a.stream = lib.sum256 b.stream → a.stream = b.stream)
    (hatext : ∀ file ∈ a.files, 0 ∉ file.2) (hbtext : ∀ file ∈ b.files, 0 ∉ file.2) (s : σ) (s' : τ) :
    (Prog.run answer (sourceContextContentHash lib dir) s).1 =
        (Prog.run answer' (sourceContextContentHash lib dir') s').1 ↔
      ∀ file, file ∈ a.files ↔ file ∈ b.files := by
  rw [run_sourceContextContentHash lib ha, run_sourceContextContentHash lib hb, key_eq_iff hcollision]
  refine ⟨mem_iff_of_stream hatext hbtext, fun hfiles => ?_⟩
  rw [RegularFiles.stream, RegularFiles.sorted, sorted_eq_of_mem_iff a.distinct b.distinct hfiles]
  rfl

def heldIn (tree : Files.Tree) (o : ServerOp) (s : Unit) : ServerRes o × Unit :=
  ((respond ⟨.error ⟨[], none⟩, .error ⟨[], none⟩, .replicate 16 0, .ok ()⟩ 0 o
    ⟨⟨none, [], [], tree, []⟩, none, none⟩).1, s)

theorem context_key_eq_iff_moved :
    let file (dir : String) := Files.Tree.empty.set ⟨false, [ascii dir, ascii "a"]⟩ (.file (ascii "x"))
    let lib : RoutingLib := ⟨fun _ => .error [], fun _ => .error [], fun input => .replicate 32 (.ofNat input.length)⟩
    (Prog.run (heldIn (file "b")) (sourceContextContentHash lib (ascii "b")) ()).1 =
      (Prog.run (heldIn (file "c")) (sourceContextContentHash lib (ascii "c")) ()).1 := by
  intro file lib
  let context : RegularFiles := ⟨[(ascii "a", ascii "x")], by decide, by decide⟩
  have hb : Shows (heldIn (file "b")) (ascii "b") context :=
    ⟨fun _ => ⟨_, rfl, by decide⟩, fun _ => forall_mem_singleton.2 rfl⟩
  have hc : Shows (heldIn (file "c")) (ascii "c") context :=
    ⟨fun _ => ⟨_, rfl, by decide⟩, fun _ => forall_mem_singleton.2 rfl⟩
  exact (context_key_eq_iff lib hb hc (fun _ => rfl) (by decide) (by decide) () ()).2 fun _ => Iff.rfl

end BuildkitService.Daemon
