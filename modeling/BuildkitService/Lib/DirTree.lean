import BuildkitService.Lib.Assoc
import BuildkitService.Lib.Ledger
import Mathlib.Data.List.Induction

/-!
# Directory trees

A tree of directories and files over any type of names.
-/

inductive DirTree.Node where
  | dir
  | file (size : Nat)
  deriving DecidableEq, Repr

structure DirTree (Name : Type*) where
  entries : List (List Name × DirTree.Node)
  nodup : (entries.map Prod.fst).Nodup
  closed : ∀ e ∈ entries, e.1 ≠ [] → (e.1.dropLast, DirTree.Node.dir) ∈ entries

namespace DirTree

open List

variable {Name : Type*} [DecidableEq Name]

def Node.size : Node → Nat
  | .dir => 0
  | .file size => size

def Node.isDir : Node → Bool
  | .dir => true
  | .file _ => false

def Inside (dir p : List Name) : Prop := dir <+: p ∧ dir ≠ p

instance (dir p : List Name) : Decidable (Inside dir p) := inferInstanceAs (Decidable (_ ∧ _))

def get (t : DirTree Name) (p : List Name) : Option Node := t.entries.lookup p

def sizeAt (t : DirTree Name) (p : List Name) : Nat := ((t.get p).map Node.size).getD 0

def remove (t : DirTree Name) (p : List Name) : Option (DirTree Name) :=
  if hempty : (t.get p).isSome ∧ ∀ e ∈ t.entries, ¬ Inside p e.1 then
    some
      { entries := t.entries.filter fun e => e.1 != p
        nodup := (List.filter_sublist.map Prod.fst).nodup t.nodup
        closed := by
          intro e he hne
          have hmem := (List.mem_filter.1 he).1
          refine List.mem_filter.2 ⟨t.closed e hmem hne, bne_iff_ne.2 ?_⟩
          rintro rfl
          refine hempty.2 e hmem ⟨List.dropLast_prefix _, ?_⟩
          intro heq
          have hlength := congrArg List.length heq
          have hpos := List.length_pos_of_ne_nil hne
          rw [List.length_dropLast] at hlength
          omega }
  else none

/-! ### What is there -/

variable {t t' : DirTree Name} {p dir : List Name} {n : Node}

theorem get_eq_some_iff : t.get p = some n ↔ (p, n) ∈ t.entries := Assoc.lookup_eq_some_iff t.nodup

theorem get_eq_none_iff : t.get p = none ↔ ∀ e ∈ t.entries, e.1 ≠ p := by
  rw [get, lookup_eq_none_iff]
  refine forall₂_congr ?_
  intro e _
  rw [bne_iff_ne]
  exact ne_comm

omit [DecidableEq Name] in
theorem dir_of_inside (hmem : (p, n) ∈ t.entries) (hinside : Inside dir p) : (dir, Node.dir) ∈ t.entries := by
  obtain ⟨⟨rest, rfl⟩, hne⟩ := hinside
  induction rest using reverseRecOn generalizing n with
  | nil => exact absurd (append_nil dir).symm hne
  | append_singleton front name ih =>
    have hparent : (dir ++ front, Node.dir) ∈ t.entries := by
      have hclosed := t.closed _ hmem (by simp)
      rwa [← append_assoc, dropLast_concat] at hclosed
    by_cases hfront : front = []
    · subst hfront
      rwa [append_nil] at hparent
    · refine ih hparent ?_
      intro heq
      exact hfront (append_right_eq_self.1 heq.symm)

omit [DecidableEq Name] in
theorem child_of_inside (hmem : (p, n) ∈ t.entries) (hinside : Inside dir p) :
    ∃ name m, (dir ++ [name], m) ∈ t.entries ∧ dir ++ [name] <+: p := by
  obtain ⟨⟨rest, rfl⟩, hne⟩ := hinside
  cases rest with
  | nil => exact absurd (append_nil dir).symm hne
  | cons name rest =>
    have hpre : dir ++ [name] <+: dir ++ name :: rest := ⟨rest, by simp⟩
    by_cases hrest : rest = []
    · subst hrest
      exact ⟨name, n, hmem, hpre⟩
    · refine ⟨name, .dir, dir_of_inside hmem ⟨hpre, ?_⟩, hpre⟩
      intro heq
      exact hrest (by simpa using heq.symm)

theorem sizeAt_of_mem (hmem : (p, n) ∈ t.entries) : t.sizeAt p = n.size := by
  rw [sizeAt, get_eq_some_iff.2 hmem]
  rfl

theorem node_unique {m : Node} (hmem : (p, n) ∈ t.entries) (hmem' : (p, m) ∈ t.entries) : n = m :=
  Option.some.inj ((get_eq_some_iff.2 hmem).symm.trans (get_eq_some_iff.2 hmem'))

theorem sizeAt_eq_total (t : DirTree Name) (p : List Name) :
    t.sizeAt p = Ledger.total (fun e => if e.1 = p then e.2.size else 0) t.entries :=
  (Assoc.total_key Node.size t.nodup p).symm

theorem remove_eq_some (hremove : t.remove p = some t') :
    (∃ n, t.get p = some n) ∧ ∀ e, e ∈ t'.entries ↔ e ∈ t.entries ∧ e.1 ≠ p := by
  rw [remove] at hremove
  split_ifs at hremove with hempty
  rw [← Option.some.inj hremove]
  refine ⟨Option.isSome_iff_exists.1 hempty.1, ?_⟩
  intro e
  rw [mem_filter, bne_iff_ne]

end DirTree
