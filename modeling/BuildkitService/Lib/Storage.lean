import BuildkitService.Lib.Files

/-!
# Storage that may fail

`Does` is what a call may do to the tree, whether it succeeds or not.
-/

namespace Files

open Strings List Ledger

def Does (t : Tree) : (o : FsOp) → FsRes o → Tree → Prop
  | .mkdirAll p, _, t' =>
      ∃ made : List Place, (∀ k ∈ made, FsOp.Touches (.mkdirAll p) k) ∧
        t'.entries = made.map (fun k => (k, Node.dir)) ++ t.entries
  | .create p, .ok _, t' => t' = t.set (place p) (.file [])
  | .create _, .error _, t' => t' = t
  | .write p b, .ok _, t' =>
      (∃ content, t.get (place p) = some (.file content) ∧ t' = t.set (place p) (.file (content ++ [b]))) ∨
        t.get (place p) = none ∧ t' = t
  | .write _ _, .error _, t' => t' = t
  | .close _, _, t' => t' = t
  | .remove p, _, t' => t' = t ∨ t' = t.erase (place p)
  | .removeAll p, _, t' =>
      ∃ kept : Place → Bool, (∀ k, ¬ FsOp.Touches (.removeAll p) k → kept k = true) ∧ t' = t.keep kept
  | .stat p, r, t' => t' = t ∧ ∀ info, r = .ok info → ∃ n, t.get (place p) = some n ∧ info = ⟨n == .dir, n.size⟩
  | .readDir _, r, t' => t' = t ∧ ∀ names, r = .ok names → ∀ name ∈ names, Path.plain name.1 = true
  | .readFile p, r, t' => t' = t ∧ ∀ content, r = .ok content → t.get (place p) = some (.file content)

variable {t t' : Tree} {k : Place}

/-! ### Working storage -/

theorem keep_of_forall {kept : Place → Bool} (hkept : ∀ e ∈ t.entries, kept e.1 = true) :
    (t.keep kept).entries = t.entries := filter_eq_self.2 hkept

theorem set_of_get_none {n : Node} (hnone : t.get k = none) : (t.set k n).entries = (k, n) :: t.entries := by
  have hlookup : t.entries.lookup k = none := by
    rwa [Tree.get, if_neg (by rw [Tree.top_of_get_none hnone]; decide)] at hnone
  have herase : (t.erase k).entries = t.entries := by
    refine keep_of_forall ?_
    intro e he
    rw [bne_comm]
    exact lookup_eq_none_iff.1 hlookup e he
  show (k, n) :: (t.erase k).entries = _
  rw [herase]

theorem mkdirs_does {root : Bool} (above rest : List Bytes) (t : Tree) :
    ∃ made : List Place, (∀ k ∈ made, k.root = root ∧ k.comps <+: above ++ rest) ∧
      (Tree.mkdirs root above rest t).2.entries = made.map (fun k => (k, Node.dir)) ++ t.entries := by
  induction rest generalizing above t with
  | nil => exact ⟨[], nofun, rfl⟩
  | cons c rest ih =>
    have hassoc : above ++ [c] ++ rest = above ++ c :: rest := by rw [append_assoc, singleton_append]
    rw [Tree.mkdirs]
    cases hget : t.get ⟨root, above ++ [c]⟩ with
    | some node =>
      cases node with
      | dir =>
        obtain ⟨made, hmade, htree⟩ := ih (above ++ [c]) t
        rw [hassoc] at hmade
        exact ⟨made, hmade, htree⟩
      | file content => exact ⟨[], nofun, rfl⟩
    | none =>
      dsimp only
      split_ifs
      · obtain ⟨made, hmade, htree⟩ := ih (above ++ [c]) (t.set ⟨root, above ++ [c]⟩ .dir)
        rw [hassoc] at hmade
        refine ⟨made ++ [⟨root, above ++ [c]⟩], ?_, ?_⟩
        · intro k hk
          rcases mem_append.1 hk with hk | hk
          · exact hmade k hk
          · rw [mem_singleton.1 hk]
            exact ⟨rfl, ⟨rest, hassoc⟩⟩
        · rw [htree, set_of_get_none hget, map_append, append_assoc]
          rfl
      · exact ⟨[], nofun, rfl⟩

theorem children_plain {name : Bytes × Bool} (hname : name ∈ t.children k) : Path.plain name.1 = true := by
  rw [Tree.children, mem_insertionSort, mem_filterMap] at hname
  obtain ⟨e, _, hentry⟩ := hname
  split_ifs at hentry
  obtain ⟨last, hlast, rfl⟩ := Option.map_eq_some_iff.1 hentry
  exact (Option.filter_eq_some_iff.1 hlast).2

theorem answer_does (o : FsOp) (t : Tree) : Does t o (answer o t).1 (answer o t).2 := by
  cases o with
  | mkdirAll p => exact mkdirs_does [] _ t
  | create p =>
    show Does t (.create p) (t.create p).1 (t.create p).2
    rw [Tree.create]
    split_ifs
    · exact rfl
    · split
      · exact rfl
      · exact rfl
      · exact rfl
      · exact rfl
  | write p b =>
    show Does t (.write p b) (answer (.write p b) t).1 (answer (.write p b) t).2
    rw [answer]
    split
    · next content hget => exact .inl ⟨content, hget, rfl⟩
    · exact rfl
  | close p => exact rfl
  | remove p => exact .inr rfl
  | removeAll p =>
    refine ⟨fun k => !(k.root == Path.rooted p && (Path.components p).isPrefixOf k.comps), ?_, rfl⟩
    intro k hk
    rw [Bool.not_eq_true', ← Bool.not_eq_true]
    intro hunder
    rw [Bool.and_eq_true, beq_iff_eq, isPrefixOf_iff_prefix] at hunder
    exact hk hunder
  | stat p =>
    show Does t (.stat p) (answer (.stat p) t).1 (answer (.stat p) t).2
    rw [answer]
    split
    · next n hget => exact ⟨rfl, fun info hinfo => ⟨n, hget, (Except.ok.inj hinfo).symm⟩⟩
    · exact ⟨rfl, fun _ => Prog.not_ok⟩
  | readDir p =>
    show Does t (.readDir p) (answer (.readDir p) t).1 (answer (.readDir p) t).2
    rw [answer]
    split
    · refine ⟨rfl, ?_⟩
      intro names hnames name hname
      rw [← Except.ok.inj hnames] at hname
      exact children_plain hname
    · exact ⟨rfl, fun _ => Prog.not_ok⟩
  | readFile p =>
    show Does t (.readFile p) (answer (.readFile p) t).1 (answer (.readFile p) t).2
    rw [answer]
    split
    · next content hget => exact ⟨rfl, fun other hother => by rw [hget, Except.ok.inj hother]⟩
    · exact ⟨rfl, fun _ => Prog.not_ok⟩
    · exact ⟨rfl, fun _ => Prog.not_ok⟩

/-! ### Bytes below a place -/

def Place.under (top k : Place) : Bool := k.root == top.root && top.comps.isPrefixOf k.comps

theorem Place.under_iff {top : Place} : top.under k = true ↔ k.root = top.root ∧ top.comps <+: k.comps := by
  rw [Place.under, Bool.and_eq_true, beq_iff_eq, isPrefixOf_iff_prefix]

def weight (top : Place) (e : Place × Node) : Nat := if top.under e.1 then e.2.size else 0

def Tree.sizeUnder (t : Tree) (top : Place) : Nat := Ledger.total (weight top) t.entries

def Tree.sizeAt (t : Tree) (k : Place) : Nat := ((t.entries.lookup k).map Node.size).getD 0

variable {top : Place} {n : Node}

theorem total_filter_le (kept : Place → Bool) (entries : List (Place × Node)) :
    total (weight top) (entries.filter fun e => kept e.1) ≤ total (weight top) entries := by
  induction entries with
  | nil => exact le_rfl
  | cons e entries ih =>
    rw [filter_cons]
    split_ifs
    · rw [total_cons, total_cons]
      omega
    · rw [total_cons]
      omega

theorem sizeUnder_keep_le (kept : Place → Bool) : (t.keep kept).sizeUnder top ≤ t.sizeUnder top :=
  total_filter_le kept t.entries

theorem sizeUnder_erase_keep_le (kept : Place → Bool) :
    ((t.keep kept).erase k).sizeUnder top ≤ (t.erase k).sizeUnder top := by
  have hswap : ((t.keep kept).erase k).entries = ((t.erase k).keep kept).entries := filter_comm _ _ _
  rw [Tree.sizeUnder, hswap]
  exact sizeUnder_keep_le kept

theorem sizeUnder_set : (t.set k n).sizeUnder top = weight top (k, n) + (t.erase k).sizeUnder top := rfl

theorem sizeUnder_erase_set : ((t.set k n).erase k).sizeUnder top = (t.erase k).sizeUnder top := by
  have hentries : ((t.set k n).erase k).entries = (t.erase k).entries := by
    show ((k, n) :: (t.erase k).entries).filter (fun e => e.1 != k) = (t.erase k).entries
    rw [filter_cons_of_neg (by simp)]
    exact filter_eq_self.2 fun e he => (mem_filter.1 he).2
  rw [Tree.sizeUnder, hentries]
  rfl

theorem sizeUnder_erase_add (hunder : top.under k = true) :
    (t.erase k).sizeUnder top + t.sizeAt k = t.sizeUnder top := by
  obtain ⟨entries, hnodup⟩ := t
  show total (weight top) (entries.filter fun e => e.1 != k) + ((entries.lookup k).map Node.size).getD 0 =
    total (weight top) entries
  induction entries with
  | nil => rfl
  | cons e entries ih =>
    obtain ⟨place, node⟩ := e
    obtain ⟨hnew, hrest⟩ := nodup_cons.1 hnodup
    by_cases hplace : k = place
    · -- nothing else is at `k`
      subst hplace
      have hothers : (entries.filter fun e => e.1 != k) = entries := by
        refine filter_eq_self.2 ?_
        intro e he
        rw [bne_iff_ne]
        rintro rfl
        exact hnew (List.mem_map.2 ⟨e, he, rfl⟩)
      have hweight : weight top (k, node) = node.size := if_pos hunder
      rw [filter_cons_of_neg (by simp), hothers, lookup_cons_self, total_cons, hweight]
      show _ + node.size = _
      omega
    · rw [filter_cons_of_pos (by simpa using Ne.symm hplace), lookup_cons, beq_false_of_ne hplace,
        total_cons, total_cons]
      have hlater := ih hrest
      dsimp only
      omega

theorem sizeAt_of_get (htop : k.top = false) (hget : t.get k = some n) : t.sizeAt k = n.size := by
  rw [Tree.get, if_neg (by rw [htop]; decide)] at hget
  rw [Tree.sizeAt, hget]
  rfl

def FsOp.growth (top : Place) : FsOp → Nat
  | .write p _ => if top.under (place p) then 1 else 0
  | _ => 0

theorem sizeUnder_write_le {content : Bytes} {b : UInt8} (hget : t.get k = some (.file content)) :
    (t.set k (.file (content ++ [b]))).sizeUnder top ≤ t.sizeUnder top + if top.under k then 1 else 0 := by
  have htop : k.top = false := by
    rw [← Bool.not_eq_true]
    intro htop
    rw [Tree.get_of_top htop] at hget
    cases hget
  rw [sizeUnder_set, weight]
  dsimp only
  split_ifs with hunder
  · have hadd := sizeUnder_erase_add (t := t) hunder
    rw [sizeAt_of_get htop hget] at hadd
    have hlength : (Node.file (content ++ [b])).size = (Node.file content).size + 1 := by
      show (content ++ [b]).length = content.length + 1
      rw [length_append, length_singleton]
    omega
  · rw [Nat.zero_add, Nat.add_zero]
    exact sizeUnder_keep_le _

theorem Does.sizeUnder_le {o : FsOp} {r : FsRes o} (hdoes : Does t o r t') (top : Place) :
    t'.sizeUnder top ≤ t.sizeUnder top + o.growth top := by
  cases o with
  | mkdirAll p =>
    obtain ⟨made, _, hentries⟩ := hdoes
    have hmade : total (weight top) (made.map fun k => (k, Node.dir)) = 0 := by
      refine total_eq_zero _ ?_
      intro e he
      obtain ⟨k, _, rfl⟩ := List.mem_map.1 he
      rw [weight]
      split_ifs <;> rfl
    rw [Tree.sizeUnder, hentries, total_append, hmade, Nat.zero_add]
    exact le_rfl
  | create p =>
    cases r with
    | ok a =>
      obtain rfl := hdoes
      have hempty : weight top (place p, .file []) = 0 := by
        rw [weight]
        split_ifs <;> rfl
      rw [sizeUnder_set, hempty, Nat.zero_add]
      exact sizeUnder_keep_le _
    | error e =>
      obtain rfl := hdoes
      exact le_rfl
  | write p b =>
    cases r with
    | ok a =>
      rcases hdoes with ⟨content, hget, rfl⟩ | ⟨_, rfl⟩
      · exact sizeUnder_write_le hget
      · exact Nat.le_add_right _ _
    | error e =>
      obtain rfl := hdoes
      exact Nat.le_add_right _ _
  | close p =>
    obtain rfl := hdoes
    exact le_rfl
  | remove p =>
    rcases hdoes with rfl | rfl
    · exact le_rfl
    · exact sizeUnder_keep_le _
  | removeAll p =>
    obtain ⟨kept, _, rfl⟩ := hdoes
    exact sizeUnder_keep_le _
  | stat | readDir | readFile =>
    obtain ⟨rfl, _⟩ := hdoes
    exact le_rfl

theorem Does.others_le {p : Bytes} {b : UInt8} {r : FsRes (.write p b)} (hdoes : Does t (.write p b) r t') :
    (t'.erase (place p)).sizeUnder top ≤ (t.erase (place p)).sizeUnder top := by
  cases r with
  | ok a =>
    rcases hdoes with ⟨content, _, rfl⟩ | ⟨_, rfl⟩
    · rw [sizeUnder_erase_set]
    · exact le_rfl
  | error e =>
    obtain rfl := hdoes
    exact le_rfl

end Files
