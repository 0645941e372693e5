import Mathlib.Data.List.Basic

/-!
# Hash rings

Points of an ordered type, each written by a node.
-/

namespace HashRing

open List Option

variable {P N : Type*}

section Next

variable [LE P]

def IsNext (points : List P) (h x : P) : Prop :=
  x ∈ points ∧ ((h ≤ x ∧ ∀ y ∈ points, h ≤ y → x ≤ y) ∨ ((∀ y ∈ points, ¬ h ≤ y) ∧ ∀ y ∈ points, x ≤ y))

variable {points points' : List P} {h x y : P}

theorem IsNext.subset (hnext : IsNext points' h x) (hsub : points ⊆ points') (hmem : x ∈ points) :
    IsNext points h x := by
  refine ⟨hmem, ?_⟩
  rcases hnext.2 with ⟨hle, hleast⟩ | ⟨hbelow, hleast⟩
  · exact .inl ⟨hle, fun y hy => hleast y (hsub hy)⟩
  · exact .inr ⟨fun y hy => hbelow y (hsub hy), fun y hy => hleast y (hsub hy)⟩

theorem IsNext.unique [Std.Antisymm fun a b : P => a ≤ b] (hx : IsNext points h x) (hy : IsNext points h y) :
    x = y := by
  rcases hx.2 with ⟨hle, hleast⟩ | ⟨hbelow, hleast⟩
  · rcases hy.2 with ⟨hle', hleast'⟩ | ⟨hbelow', _⟩
    · exact Std.le_antisymm (hleast y hy.1 hle') (hleast' x hx.1 hle)
    · exact absurd hle (hbelow' x hx.1)
  · rcases hy.2 with ⟨hle', _⟩ | ⟨_, hleast'⟩
    · exact absurd hle' (hbelow y hy.1)
    · exact Std.le_antisymm (hleast y hy.1) (hleast' x hx.1)

theorem isNext_of_sorted [DecidableLE P] [Std.Refl fun a b : P => a ≤ b]
    (hsorted : points.Pairwise fun a b => a ≤ b)
    (hx : points[(points.findIdx? fun y => decide (h ≤ y)).getD 0]? = some x) : IsNext points h x := by
  obtain ⟨hlt, hget⟩ := List.getElem?_eq_some_iff.1 hx
  -- Every point at or after the start is at least the start.
  have hafter : ∀ (i j : Nat) (hi : i < points.length) (hj : j < points.length), i ≤ j →
      points[i] ≤ points[j] := by
    intro i j hi hj hle
    rcases Nat.lt_or_eq_of_le hle with hlt | heq
    · exact pairwise_iff_getElem.1 hsorted i j hi hj hlt
    · subst heq
      exact Std.Refl.refl _
  refine ⟨mem_of_getElem? hx, ?_⟩
  cases hfind : points.findIdx? fun y => decide (h ≤ y) with
  | some start =>
    left
    simp only [hfind, getD_some] at hget hlt
    obtain ⟨_, hle, hbelow⟩ := findIdx?_eq_some_iff_getElem.1 hfind
    rw [hget] at hle
    refine ⟨of_decide_eq_true hle, ?_⟩
    intro y hy hhy
    obtain ⟨j, hj, rfl⟩ := getElem_of_mem hy
    have hstart : start ≤ j := by
      by_contra hlt'
      exact hbelow j (by omega) (decide_eq_true hhy)
    rw [← hget]
    exact hafter start j hlt hj hstart
  | none =>
    right
    simp only [hfind, getD_none] at hget hlt
    have hbelow := findIdx?_eq_none_iff.1 hfind
    refine ⟨fun y hy => of_decide_eq_false (hbelow y hy), ?_⟩
    intro y hy
    obtain ⟨j, hj, rfl⟩ := getElem_of_mem hy
    rw [← hget]
    exact hafter 0 j hlt hj (Nat.zero_le j)

end Next

section Owner

variable [BEq P] {points extra : List (P × N)} {h x : P} {node other : N}

def writer (points : List (P × N)) (x : P) : Option N := points.reverse.lookup x

def Owns [LE P] (points : List (P × N)) (h : P) (node : N) : Prop :=
  ∃ x, IsNext (points.map Prod.fst) h x ∧ writer points x = some node

theorem Owns.unique [LE P] [Std.Antisymm fun a b : P => a ≤ b] (howns : Owns points h node)
    (hother : Owns points h other) : node = other := by
  obtain ⟨x, hx, hnode⟩ := howns
  obtain ⟨y, hy, hnode'⟩ := hother
  rw [hx.unique hy, hnode', Option.some.injEq] at hnode
  exact hnode.symm

variable [LawfulBEq P]

theorem mem_of_writer (hwriter : writer points x = some node) : (x, node) ∈ points := by
  obtain ⟨later, earlier, hrev, _⟩ := lookup_eq_some_iff.1 hwriter
  rw [← mem_reverse, hrev]
  simp

theorem exists_writer (hmem : x ∈ points.map Prod.fst) : ∃ node, writer points x = some node := by
  obtain ⟨entry, hentry, rfl⟩ := List.mem_map.1 hmem
  rw [← isSome_iff_exists, writer, lookup_isSome_iff]
  exact ⟨entry, mem_reverse.2 hentry, beq_self_eq_true _⟩

theorem writer_of_append (hwriter : writer (points ++ extra) x = some node)
    (hextra : ∀ entry ∈ extra, entry.2 ≠ node) : writer points x = some node := by
  rw [writer, reverse_append, lookup_append] at hwriter
  cases hlookup : extra.reverse.lookup x with
  | none =>
    rw [hlookup, none_or] at hwriter
    exact hwriter
  | some late =>
    rw [hlookup, some_or, Option.some.injEq] at hwriter
    subst hwriter
    exact absurd rfl (hextra _ (mem_of_writer hlookup))

theorem Owns.mem [LE P] (howns : Owns points h node) : ∃ x, (x, node) ∈ points := by
  obtain ⟨x, _, hwriter⟩ := howns
  exact ⟨x, mem_of_writer hwriter⟩

theorem Owns.of_append [LE P] (howns : Owns (points ++ extra) h node)
    (hextra : ∀ entry ∈ extra, entry.2 ≠ node) : Owns points h node := by
  obtain ⟨x, hnext, hwriter⟩ := howns
  have hkept := writer_of_append hwriter hextra
  refine ⟨x, hnext.subset ?_ (List.mem_map_of_mem (mem_of_writer hkept)), hkept⟩
  rw [map_append]
  exact subset_append_left _ _

end Owner

end HashRing
