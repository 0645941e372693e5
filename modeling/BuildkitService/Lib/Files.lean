import BuildkitService.Lib.Assoc
import BuildkitService.Lib.Path
import BuildkitService.Lib.Prog
import Mathlib.Data.List.Sort

/-!
# File operations

The calls of Go's `os` package on files and directories, and a tree that they act on.
-/

inductive Sentinel where
  | notExist
  | archiveLimit
  | maxBytes
  deriving DecidableEq, Repr

structure GoError where
  text : Bytes
  is : Option Sentinel
  deriving DecidableEq, Repr

def GoError.wrap (context : Bytes) (e : GoError) : GoError := { e with text := context ++ e.text }

def errorf (text : Bytes) : GoError := ⟨text, none⟩

namespace Files

open Strings List

structure FileInfo where
  isDir : Bool
  size : Nat
  deriving DecidableEq, Repr

inductive FsOp where
  | mkdirAll (path : Bytes)
  /-- `OpenFile` for writing, with `O_CREATE` and `O_TRUNC`. -/
  | create (path : Bytes)
  | write (path : Bytes) (b : UInt8)
  | close (path : Bytes)
  | remove (path : Bytes)
  | removeAll (path : Bytes)
  | stat (path : Bytes)
  | readDir (path : Bytes)
  | readFile (path : Bytes)
  deriving DecidableEq, Repr

def FsRes : FsOp → Type
  | .mkdirAll _ | .create _ | .write _ _ | .close _ => Except GoError Unit
  | .remove _ | .removeAll _ => Unit
  | .stat _ => Except GoError FileInfo
  | .readDir _ => Except GoError (List (Bytes × Bool))
  | .readFile _ => Except GoError Bytes

abbrev FsProg := Prog FsOp FsRes

def mkdirAll (path : Bytes) : FsProg (Except GoError Unit) := Prog.op (FsOp.mkdirAll path)

def create (path : Bytes) : FsProg (Except GoError Unit) := Prog.op (FsOp.create path)

def writeByte (path : Bytes) (b : UInt8) : FsProg (Except GoError Unit) := Prog.op (FsOp.write path b)

def close (path : Bytes) : FsProg (Except GoError Unit) := Prog.op (FsOp.close path)

def remove (path : Bytes) : FsProg Unit := Prog.op (FsOp.remove path)

def removeAll (path : Bytes) : FsProg Unit := Prog.op (FsOp.removeAll path)

def stat (path : Bytes) : FsProg (Except GoError FileInfo) := Prog.op (FsOp.stat path)

def readDir (path : Bytes) : FsProg (Except GoError (List (Bytes × Bool))) := Prog.op (FsOp.readDir path)

def readFile (path : Bytes) : FsProg (Except GoError Bytes) := Prog.op (FsOp.readFile path)

/-! ### Places -/

structure Place where
  root : Bool
  comps : List Bytes
  deriving DecidableEq, Repr

def place (p : Bytes) : Place := ⟨Path.rooted p, Path.components p⟩

def FsOp.Touches : FsOp → Place → Prop
  | .mkdirAll p, k => k.root = Path.rooted p ∧ k.comps <+: Path.components p
  | .create p, k | .write p _, k | .remove p, k => k = place p
  | .removeAll p, k => k.root = Path.rooted p ∧ Path.components p <+: k.comps
  | _, _ => False

/-! ### Trees -/

inductive Node where
  | dir
  | file (content : Bytes)
  deriving DecidableEq, Repr

structure Tree where
  entries : List (Place × Node)
  nodup : (entries.map Prod.fst).Nodup
  deriving DecidableEq, Repr

def Place.top (k : Place) : Bool := k.comps.all (· == Path.dotdot)

def Place.parent (k : Place) : Place := ⟨k.root, k.comps.dropLast⟩

def Node.size : Node → Nat
  | .dir => 0
  | .file content => content.length

namespace Tree

def get (t : Tree) (k : Place) : Option Node := if k.top then some .dir else t.entries.lookup k

def empty : Tree := ⟨[], List.nodup_nil⟩

def keep (t : Tree) (kept : Place → Bool) : Tree where
  entries := t.entries.filter fun e => kept e.1
  nodup := (List.filter_sublist.map Prod.fst).nodup t.nodup

def erase (t : Tree) (k : Place) : Tree := t.keep (· != k)

def set (t : Tree) (k : Place) (n : Node) : Tree where
  entries := (k, n) :: (t.erase k).entries
  nodup := by
    refine List.nodup_cons.2 ⟨?_, (t.erase k).nodup⟩
    rintro hmem
    obtain ⟨e, he, hplace⟩ := List.mem_map.1 hmem
    exact bne_iff_ne.1 (List.mem_filter.1 he).2 hplace

end Tree

/-! ### Calls on a tree -/

def pathError (call path text : Bytes) : GoError := errorf (call ++ ascii " " ++ path ++ ascii ": " ++ text)

def missing (call path : Bytes) : GoError :=
  ⟨call ++ ascii " " ++ path ++ ascii ": no such file or directory", some .notExist⟩

def storable (comps : List Bytes) : Bool := comps.all fun c => !c.contains 0

namespace Tree

def mkdirs (root : Bool) (above : List Bytes) : List Bytes → Tree → Except GoError Unit × Tree
  | [], t => (.ok (), t)
  | c :: rest, t =>
      match t.get ⟨root, above ++ [c]⟩ with
      | some .dir => mkdirs root (above ++ [c]) rest t
      | some (.file _) =>
          (.error (pathError (ascii "mkdir") (Path.render root (above ++ [c])) (ascii "not a directory")), t)
      | none =>
          if storable [c] then mkdirs root (above ++ [c]) rest (t.set ⟨root, above ++ [c]⟩ .dir)
          else (.error (pathError (ascii "mkdir") (Path.render root (above ++ [c])) (ascii "invalid argument")), t)

def create (t : Tree) (path : Bytes) : Except GoError Unit × Tree :=
  if storable (place path).comps = false then
    (.error (pathError (ascii "open") path (ascii "invalid argument")), t)
  else
    match t.get (place path).parent, t.get (place path) with
    | none, _ => (.error (missing (ascii "open") path), t)
    | some (.file _), _ => (.error (pathError (ascii "open") path (ascii "not a directory")), t)
    | some .dir, some .dir => (.error (pathError (ascii "open") path (ascii "is a directory")), t)
    | some .dir, _ => (.ok (), t.set (place path) (.file []))

def children (t : Tree) (k : Place) : List (Bytes × Bool) :=
  let names := t.entries.filterMap fun e =>
    if e.1.root = k.root ∧ e.1.comps.dropLast = k.comps then
      (e.1.comps.getLast?.filter Path.plain).map fun name => (name, decide (e.2 = .dir))
    else none
  names.insertionSort fun a b => (!less b.1 a.1) = true

end Tree

def answer : (o : FsOp) → Tree → FsRes o × Tree
  | .mkdirAll p, t => Tree.mkdirs (Path.rooted p) [] (Path.components p) t
  | .create p, t => t.create p
  | .write p b, t =>
      match t.get (place p) with
      | some (.file content) => (.ok (), t.set (place p) (.file (content ++ [b])))
      | _ => (.error (pathError (ascii "write") p (ascii "bad file descriptor")), t)
  | .close _, t => (.ok (), t)
  | .remove p, t => ((), t.erase (place p))
  | .removeAll p, t =>
      ((), t.keep fun k => !(k.root == Path.rooted p && (Path.components p).isPrefixOf k.comps))
  | .stat p, t =>
      match t.get (place p) with
      | some n => (.ok ⟨n == .dir, n.size⟩, t)
      | none => (.error (missing (ascii "stat") p), t)
  | .readDir p, t =>
      match t.get (place p) with
      | some .dir => (.ok (t.children (place p)), t)
      | _ => (.error (missing (ascii "open") p), t)
  | .readFile p, t =>
      match t.get (place p) with
      | some (.file content) => (.ok content, t)
      | some .dir => (.error (pathError (ascii "read") p (ascii "is a directory")), t)
      | none => (.error (missing (ascii "open") p), t)

theorem run_mkdirAll (p : Bytes) (t : Tree) :
    Prog.run answer (mkdirAll p) t = Tree.mkdirs (Path.rooted p) [] (Path.components p) t := rfl

theorem run_create (p : Bytes) (t : Tree) : Prog.run answer (create p) t = t.create p := rfl

theorem run_writeByte {p old : Bytes} {t : Tree} (hold : t.get (place p) = some (.file old)) (b : UInt8) :
    Prog.run answer (writeByte p b) t = (.ok (), t.set (place p) (.file (old ++ [b]))) := by
  show answer (.write p b) t = _
  rw [answer, hold]
  rfl

theorem run_stat (p : Bytes) (t : Tree) : Prog.run answer (stat p) t = (match t.get (place p) with
      | some n => .ok ⟨n == .dir, n.size⟩
      | none => .error (missing (ascii "stat") p), t) := by
  show answer (.stat p) t = _
  rw [answer]
  split <;> rfl

/-! ### Names that can be stored -/

variable {comps : List Bytes}

theorem storable_iff : storable comps = true ↔ ∀ c ∈ comps, storable [c] = true := by
  simp [storable]

theorem storable_of_subset {part : List Bytes} (hsubset : part ⊆ comps) (hcomps : storable comps = true) :
    storable part = true := by
  rw [storable_iff] at hcomps ⊢
  intro c hc
  exact hcomps c (hsubset hc)

theorem storable_append {part : List Bytes} (hcomps : storable comps = true) (hpart : storable part = true) :
    storable (comps ++ part) = true := by
  rw [storable_iff] at hcomps hpart ⊢
  intro c hc
  rcases mem_append.1 hc with hc | hc
  · exact hcomps c hc
  · exact hpart c hc

/-! ### What is in a tree -/

namespace Tree

variable {t : Tree} {k k' : Place} {n : Node}

theorem get_of_top (htop : k.top = true) : t.get k = some .dir := if_pos htop

theorem get_set_self (htop : k.top = false) : (t.set k n).get k = some n := by
  rw [get, if_neg (by rw [htop]; decide), set, lookup_cons, beq_self_eq_true]

theorem get_set_of_ne (hne : k' ≠ k) : (t.set k n).get k' = t.get k' := by
  have hlookup : (t.set k n).entries.lookup k' = t.entries.lookup k' := by
    show ((k, n) :: t.entries.filter fun e => e.1 != k).lookup k' = t.entries.lookup k'
    rw [lookup_cons, beq_false_of_ne hne]
    exact Assoc.lookup_filter_ne hne
  rw [get, get, hlookup]

theorem top_of_get_none (hget : t.get k = none) : k.top = false := by
  by_contra htop
  rw [get_of_top (Bool.not_eq_false _ ▸ htop)] at hget
  cases hget

/-! ### Making directories -/

variable {root : Bool} {above rest mid : List Bytes}

theorem place_ne_of_longer {c : Bytes} (hmid : mid ≠ []) :
    (⟨root, above ++ [c] ++ mid⟩ : Place) ≠ ⟨root, above ++ [c]⟩ := by
  intro heq
  have hcomps : above ++ [c] ++ mid = above ++ [c] ++ [] := by
    rw [append_nil]
    exact congrArg Place.comps heq
  exact hmid (append_cancel_left hcomps)

theorem get_mkdirs_of_ne (hk : ∀ mid, mid ≠ [] → mid <+: rest → k ≠ ⟨root, above ++ mid⟩) :
    (mkdirs root above rest t).2.get k = t.get k := by
  induction rest generalizing above t with
  | nil => rfl
  | cons c rest ih =>
    have hnext : ∀ mid, mid ≠ [] → mid <+: rest → k ≠ ⟨root, above ++ [c] ++ mid⟩ := by
      intro mid hmid hpre
      rw [append_assoc]
      exact hk (c :: mid) (cons_ne_nil _ _) (cons_prefix_cons.2 ⟨rfl, hpre⟩)
    rw [mkdirs]
    split
    · exact ih hnext
    · rfl
    · split_ifs
      · rw [ih hnext]
        exact get_set_of_ne (hk [c] (cons_ne_nil _ _) (cons_prefix_cons.2 ⟨rfl, nil_prefix⟩))
      · rfl

theorem mkdirs_ok (hok : (mkdirs root above rest t).1 = .ok ()) (hmid : mid ≠ []) (hpre : mid <+: rest) :
    (mkdirs root above rest t).2.get ⟨root, above ++ mid⟩ = some .dir := by
  induction rest generalizing above t mid with
  | nil => exact absurd (prefix_nil.1 hpre) hmid
  | cons c rest ih =>
    -- the first directory stays as it is found or made; the others are those of the recursive call
    have hfirst : ∀ t' : Tree, t'.get ⟨root, above ++ [c]⟩ = some .dir →
        (mkdirs root (above ++ [c]) rest t').1 = .ok () →
        (mkdirs root (above ++ [c]) rest t').2.get ⟨root, above ++ mid⟩ = some .dir := by
      intro t' hdir hok'
      obtain ⟨first, mid, rfl⟩ := exists_cons_of_ne_nil hmid
      obtain ⟨rfl, hshorter⟩ := cons_prefix_cons.1 hpre
      by_cases hnil : mid = []
      · subst hnil
        rw [get_mkdirs_of_ne fun mid' hmid' _ => (place_ne_of_longer hmid').symm, hdir]
      · have hrest := ih hok' hnil hshorter
        rw [append_assoc] at hrest
        exact hrest
    rw [mkdirs] at hok ⊢
    split at hok
    · next hdir => exact hfirst t hdir hok
    · cases hok
    · next hnone =>
      split_ifs at hok ⊢ with hstorable
      exact hfirst _ (get_set_self (top_of_get_none hnone)) hok

theorem mkdirs_ok_iff : (mkdirs root above rest t).1 = .ok () ↔
    ∀ mid c, mid ++ [c] <+: rest → t.get ⟨root, above ++ mid ++ [c]⟩ = some .dir ∨
      t.get ⟨root, above ++ mid ++ [c]⟩ = none ∧ storable [c] = true := by
  induction rest generalizing above t with
  | nil =>
    refine iff_of_true rfl ?_
    intro mid c hpre
    exact absurd (prefix_nil.1 hpre) (by simp)
  | cons first rest ih =>
    -- the condition at the first directory, and at those after it
    have hsplit : ∀ P : List Bytes → Bytes → Prop, (∀ mid c, mid ++ [c] <+: first :: rest → P mid c) ↔
        P [] first ∧ ∀ mid c, mid ++ [c] <+: rest → P (first :: mid) c := by
      intro P
      constructor
      · intro hall
        refine ⟨hall [] first (cons_prefix_cons.2 ⟨rfl, nil_prefix⟩), ?_⟩
        intro mid c hpre
        exact hall (first :: mid) c (cons_prefix_cons.2 ⟨rfl, hpre⟩)
      · rintro ⟨hfirst, hrest⟩ mid c hpre
        cases mid with
        | nil =>
          obtain ⟨rfl, _⟩ := cons_prefix_cons.1 hpre
          exact hfirst
        | cons b mid =>
          obtain ⟨rfl, hshorter⟩ := cons_prefix_cons.1 hpre
          exact hrest mid c hshorter
    have hassoc : ∀ (mid : List Bytes) c, above ++ first :: mid ++ [c] = above ++ [first] ++ mid ++ [c] := by
      intro mid c
      rw [append_assoc above [first], singleton_append]
    rw [hsplit, mkdirs, append_nil]
    simp only [hassoc]
    cases hget : t.get ⟨root, above ++ [first]⟩ with
    | some node =>
      cases node with
      | dir =>
        dsimp only
        rw [ih]
        exact ⟨fun hrest => ⟨.inl rfl, hrest⟩, fun hall => hall.2⟩
      | file content =>
        refine iff_of_false (by simp) ?_
        rintro ⟨hfile | ⟨hfile, _⟩, _⟩
        · cases hfile
        · cases hfile
    | none =>
      dsimp only
      split_ifs with hstorable
      · have hset : ∀ mid c, (t.set ⟨root, above ++ [first]⟩ .dir).get ⟨root, above ++ [first] ++ mid ++ [c]⟩ =
            t.get ⟨root, above ++ [first] ++ mid ++ [c]⟩ := by
          intro mid c
          rw [append_assoc _ mid]
          exact get_set_of_ne (place_ne_of_longer (by simp))
        simp only [ih, hset]
        exact ⟨fun hrest => ⟨.inr ⟨trivial, hstorable⟩, hrest⟩, fun hall => hall.2⟩
      · refine iff_of_false (by simp) ?_
        rintro ⟨hmade | ⟨_, hmade⟩, _⟩
        · cases hmade
        · exact hstorable hmade

theorem get_mkdirs_self (hok : (mkdirs root [] rest t).1 = .ok ()) :
    (mkdirs root [] rest t).2.get ⟨root, rest⟩ = some .dir := by
  by_cases hrest : rest = []
  · subst hrest
    exact get_of_top rfl
  · exact mkdirs_ok hok hrest (prefix_refl rest)

/-! ### Making files -/

theorem dir_or_none (hfile : ∀ content, t.get k ≠ some (.file content)) :
    t.get k = some .dir ∨ t.get k = none := by
  cases hget : t.get k with
  | none => exact .inr rfl
  | some node =>
    cases node with
    | dir => exact .inl rfl
    | file content => exact absurd hget (hfile content)

theorem create_ok_iff {path : Bytes} : (t.create path).1 = .ok () ↔
    storable (place path).comps = true ∧ t.get (place path).parent = some .dir ∧ t.get (place path) ≠ some .dir := by
  rw [create]
  split_ifs with hstorable
  · simp [hstorable]
  · rw [Bool.not_eq_false] at hstorable
    simp only [hstorable, true_and]
    split <;> simp_all

theorem create_ok {path : Bytes} (hok : (t.create path).1 = .ok ()) :
    t.create path = (.ok (), t.set (place path) (.file [])) := by
  rw [create] at hok ⊢
  split_ifs at hok ⊢ with hstorable
  split at hok
  · cases hok
  · cases hok
  · cases hok
  · rfl

end Tree

end Files
