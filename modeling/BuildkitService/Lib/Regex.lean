import BuildkitService.Lib.Strings

/-!
# Backtracking regular expressions

An expression of the kind that Perl-like engines match by backtracking: classes of bytes, sequence,
ordered choice, greedy and lazy repetition of a class, numbered groups and `$`.
-/

inductive Regex where
  | empty
  | byte (class_ : UInt8 → Bool)
  | seq (first second : Regex)
  | alt (first second : Regex)
  | star (greedy : Bool) (class_ : UInt8 → Bool)
  | group (index : Nat) (body : Regex)
  | atEnd

namespace Regex

open List

structure Way where
  piece : Bytes
  rest : Bytes
  groups : List (Nat × Bytes)
  deriving DecidableEq, Repr

def Way.andThen (w v : Way) : Way := ⟨w.piece ++ v.piece, v.rest, w.groups ++ v.groups⟩

def Way.group (w : Way) (index : Nat) : Option Bytes := w.groups.lookup index

theorem Way.group_andThen (w v : Way) (index : Nat) : (w.andThen v).group index = (w.group index).or (v.group index) :=
  lookup_append

def lengths (greedy : Bool) (p : UInt8 → Bool) (s : Bytes) : List Nat :=
  let upward := List.range ((s.takeWhile p).length + 1)
  if greedy then upward.reverse else upward

def ways : Regex → Bytes → List Way
  | .empty, s => [⟨[], s, []⟩]
  | .byte _, [] => []
  | .byte p, b :: s => if p b then [⟨[b], s, []⟩] else []
  | .seq r t, s => (ways r s).flatMap fun w => (ways t w.rest).map w.andThen
  | .alt r t, s => ways r s ++ ways t s
  | .star greedy p, s => (lengths greedy p s).map fun k => ⟨s.take k, s.drop k, []⟩
  | .group index r, s => (ways r s).map fun w => { w with groups := (index, w.piece) :: w.groups }
  | .atEnd, s => if s = [] ∨ s = ascii "\n" then [⟨[], s, []⟩] else []

def first (r : Regex) (s : Bytes) : Option Way := (ways r s).head?

def opt (r : Regex) : Regex := .alt r .empty

def plus (greedy : Bool) (p : UInt8 → Bool) : Regex := .seq (.byte p) (.star greedy p)

def literal (text : Bytes) : Regex := text.foldr (fun b r => .seq (.byte fun a => a == b) r) .empty

def upTo (p : UInt8 → Bool) : Nat → Regex
  | 0 => .byte p
  | n + 1 => .seq (.byte p) (opt (upTo p n))

/-! ### Every way -/

variable {greedy : Bool}

section Ways

variable {r t : Regex} {p : UInt8 → Bool} {s : Bytes} {w : Way}

theorem mem_empty : w ∈ ways .empty s ↔ w = ⟨[], s, []⟩ := by
  rw [ways, mem_singleton]

theorem mem_byte : w ∈ ways (.byte p) s ↔ ∃ b rest, s = b :: rest ∧ p b = true ∧ w = ⟨[b], rest, []⟩ := by
  cases s with
  | nil => simp [ways]
  | cons b s =>
    rw [ways]
    split_ifs with hb
    · constructor
      · intro hw
        exact ⟨b, s, rfl, hb, mem_singleton.1 hw⟩
      · rintro ⟨a, rest, hcons, _, rfl⟩
        obtain ⟨rfl, rfl⟩ := List.cons.inj hcons
        exact mem_singleton.2 rfl
    · constructor
      · intro hw
        cases hw
      · rintro ⟨a, rest, hcons, ha, _⟩
        obtain ⟨rfl, rfl⟩ := List.cons.inj hcons
        exact absurd ha hb

theorem mem_seq : w ∈ ways (.seq r t) s ↔ ∃ u ∈ ways r s, ∃ v ∈ ways t u.rest, w = u.andThen v := by
  rw [ways, mem_flatMap]
  constructor
  · rintro ⟨u, hu, hw⟩
    obtain ⟨v, hv, rfl⟩ := List.mem_map.1 hw
    exact ⟨u, hu, v, hv, rfl⟩
  · rintro ⟨u, hu, v, hv, rfl⟩
    exact ⟨u, hu, List.mem_map.2 ⟨v, hv, rfl⟩⟩

theorem mem_alt : w ∈ ways (.alt r t) s ↔ w ∈ ways r s ∨ w ∈ ways t s := by
  rw [ways, mem_append]

theorem mem_group {index : Nat} : w ∈ ways (.group index r) s ↔
    ∃ u ∈ ways r s, w = { u with groups := (index, u.piece) :: u.groups } := by
  rw [ways, List.mem_map]
  exact ⟨fun ⟨u, hu, hw⟩ => ⟨u, hu, hw.symm⟩, fun ⟨u, hu, hw⟩ => ⟨u, hu, hw.symm⟩⟩

theorem mem_atEnd : w ∈ ways .atEnd s ↔ (s = [] ∨ s = ascii "\n") ∧ w = ⟨[], s, []⟩ := by
  rw [ways]
  split_ifs with hend
  · rw [mem_singleton]
    exact ⟨fun hw => ⟨hend, hw⟩, And.right⟩
  · exact ⟨fun hw => absurd hw not_mem_nil, fun hw => absurd hw.1 hend⟩

theorem mem_lengths {k : Nat} : k ∈ lengths greedy p s ↔ k ≤ (s.takeWhile p).length := by
  cases greedy with
  | true => rw [lengths, if_pos rfl, mem_reverse, mem_range, Nat.lt_succ_iff]
  | false => rw [lengths, if_neg Bool.false_ne_true, mem_range, Nat.lt_succ_iff]

theorem mem_star : w ∈ ways (.star greedy p) s ↔
    ∃ piece rest, s = piece ++ rest ∧ (∀ b ∈ piece, p b = true) ∧ w = ⟨piece, rest, []⟩ := by
  rw [ways, List.mem_map]
  constructor
  · rintro ⟨k, hk, rfl⟩
    refine ⟨s.take k, s.drop k, (take_append_drop k s).symm, ?_, rfl⟩
    intro b hb
    have htake : s.take k <+: s.takeWhile p := by
      rw [prefix_iff_eq_take.1 (List.takeWhile_prefix p)]
      exact take_prefix_take_left (mem_lengths.1 hk)
    exact mem_takeWhile_imp (htake.subset hb)
  · rintro ⟨piece, rest, rfl, hpiece, rfl⟩
    refine ⟨piece.length, mem_lengths.2 ?_, ?_⟩
    · rw [takeWhile_append_of_pos hpiece, length_append]
      exact Nat.le_add_right _ _
    · rw [take_left, drop_left]

theorem mem_literal {text : Bytes} : w ∈ ways (literal text) s ↔ ∃ rest, s = text ++ rest ∧ w = ⟨text, rest, []⟩ := by
  induction text generalizing s w with
  | nil =>
    rw [literal, foldr_nil, mem_empty]
    exact ⟨fun hw => ⟨s, rfl, hw⟩, fun ⟨rest, hrest, hw⟩ => hw.trans (by rw [hrest]; rfl)⟩
  | cons a text ih =>
    rw [literal, foldr_cons, mem_seq]
    constructor
    · rintro ⟨u, hu, v, hv, rfl⟩
      obtain ⟨b, rest, rfl, hb, rfl⟩ := mem_byte.1 hu
      obtain ⟨rest, hrest, rfl⟩ := ih.1 hv
      obtain rfl : b = a := beq_iff_eq.1 hb
      obtain rfl := hrest
      exact ⟨rest, rfl, rfl⟩
    · rintro ⟨rest, rfl, rfl⟩
      exact ⟨_, mem_byte.2 ⟨a, text ++ rest, rfl, beq_self_eq_true a, rfl⟩, _, ih.2 ⟨rest, rfl, rfl⟩, rfl⟩

theorem mem_plus : w ∈ ways (plus greedy p) s ↔
    ∃ piece rest, s = piece ++ rest ∧ piece ≠ [] ∧ (∀ b ∈ piece, p b = true) ∧ w = ⟨piece, rest, []⟩ := by
  rw [plus, mem_seq]
  constructor
  · rintro ⟨u, hu, v, hv, rfl⟩
    obtain ⟨b, rest, rfl, hb, rfl⟩ := mem_byte.1 hu
    obtain ⟨piece, rest, hrest, hpiece, rfl⟩ := mem_star.1 hv
    obtain rfl := hrest
    exact ⟨b :: piece, rest, rfl, cons_ne_nil _ _, forall_mem_cons.2 ⟨hb, hpiece⟩, rfl⟩
  · rintro ⟨piece, rest, rfl, hne, hpiece, rfl⟩
    obtain ⟨b, piece, rfl⟩ := exists_cons_of_ne_nil hne
    obtain ⟨hb, hpiece⟩ := forall_mem_cons.1 hpiece
    exact ⟨_, mem_byte.2 ⟨b, piece ++ rest, rfl, hb, rfl⟩, _, mem_star.2 ⟨piece, rest, rfl, hpiece, rfl⟩, rfl⟩

theorem mem_upTo {n : Nat} (hw : w ∈ ways (upTo p n) s) : s = w.piece ++ w.rest ∧ ∀ b ∈ w.piece, p b = true := by
  induction n generalizing s w with
  | zero =>
    obtain ⟨b, rest, rfl, hb, rfl⟩ := mem_byte.1 hw
    exact ⟨rfl, forall_mem_singleton.2 hb⟩
  | succ n ih =>
    obtain ⟨u, hu, v, hv, rfl⟩ := mem_seq.1 hw
    obtain ⟨b, rest, rfl, hb, rfl⟩ := mem_byte.1 hu
    rcases mem_alt.1 hv with hmore | hnone
    · obtain ⟨hsplit, hpiece⟩ := ih hmore
      exact ⟨congrArg (b :: ·) hsplit, forall_mem_cons.2 ⟨hb, hpiece⟩⟩
    · obtain rfl := mem_empty.1 hnone
      exact ⟨rfl, forall_mem_singleton.2 hb⟩

end Ways

/-! ### The first way -/

section First

variable {r t : Regex} {p : UInt8 → Bool} {s : Bytes} {w : Way}

theorem mem_of_first (hfirst : first r s = some w) : w ∈ ways r s := mem_of_head? hfirst

theorem first_isSome (hw : w ∈ ways r s) : (first r s).isSome = true := by
  rw [first, isSome_head?]
  exact ne_nil_of_mem hw

theorem first_seq (hfirst : first (.seq r t) s = some w) : ∃ before u after v, ways r s = before ++ u :: after ∧
    (∀ x ∈ before, first t x.rest = none) ∧ first t u.rest = some v ∧ w = u.andThen v := by
  rw [first, ways, head?_flatMap] at hfirst
  obtain ⟨before, u, after, hways, hu, hbefore⟩ := findSome?_eq_some_iff.1 hfirst
  rw [head?_map] at hu
  obtain ⟨v, hv, rfl⟩ := Option.map_eq_some_iff.1 hu
  refine ⟨before, u, after, v, hways, ?_, hv, rfl⟩
  intro x hx
  have hnone := hbefore x hx
  rwa [head?_map, Option.map_eq_none_iff] at hnone

theorem mem_first_seq (hfirst : first (.seq r t) s = some w) :
    ∃ u ∈ ways r s, ∃ v, first t u.rest = some v ∧ w = u.andThen v := by
  obtain ⟨before, u, after, v, hways, _, hv, hw⟩ := first_seq hfirst
  refine ⟨u, ?_, v, hv, hw⟩
  rw [hways]
  exact mem_append_right _ mem_cons_self

def Single (r : Regex) : Prop := ∀ s, (ways r s).length ≤ 1

def Ascending (r : Regex) : Prop := ∀ s, (ways r s).Pairwise fun u v => u.piece.length < v.piece.length

theorem single_byte (p : UInt8 → Bool) : Single (.byte p) := by
  intro s
  cases s with
  | nil => exact Nat.zero_le 1
  | cons b s =>
    rw [ways]
    split_ifs
    · exact le_rfl
    · exact Nat.zero_le 1

theorem Single.seq (hr : Single r) (ht : Single t) : Single (.seq r t) := by
  intro s
  have hfront := hr s
  rw [ways]
  match hways : ways r s with
  | [] => exact Nat.zero_le 1
  | [u] =>
    rw [flatMap_singleton, length_map]
    exact ht u.rest
  | u :: v :: more =>
    rw [hways, length_cons, length_cons] at hfront
    omega

theorem single_literal (text : Bytes) : Single (literal text) := by
  induction text with
  | nil => exact fun s => le_rfl
  | cons a text ih => exact (single_byte _).seq ih

theorem Single.pairwise (hr : Single r) {R : Way → Way → Prop} (s : Bytes) : (ways r s).Pairwise R := by
  have hfront := hr s
  match hways : ways r s with
  | [] => exact List.Pairwise.nil
  | [u] => exact pairwise_singleton R u
  | u :: v :: more =>
    rw [hways, length_cons, length_cons] at hfront
    omega

theorem ascending_star (p : UInt8 → Bool) : Ascending (.star false p) := by
  intro s
  rw [ways, pairwise_map]
  have hupward : (lengths false p s).Pairwise fun i j => i < j := pairwise_lt_range
  refine hupward.imp_of_mem ?_
  intro i j _ hj hlt
  have hle : (s.takeWhile p).length ≤ s.length := (List.takeWhile_prefix p).length_le
  have hbound := mem_lengths.1 hj
  rw [length_take, length_take]
  omega

theorem Ascending.after_byte (hr : Ascending r) (p : UInt8 → Bool) : Ascending (.seq (.byte p) r) := by
  intro s
  rw [ways, pairwise_flatMap]
  refine ⟨?_, (single_byte p).pairwise s⟩
  intro u hu
  rw [pairwise_map]
  refine (hr u.rest).imp ?_
  intro v v' hlt
  rw [Way.andThen, Way.andThen, length_append, length_append]
  exact Nat.add_lt_add_left hlt _

theorem Ascending.before_literal (hr : Ascending r) (text : Bytes) : Ascending (.seq r (literal text)) := by
  intro s
  rw [ways, pairwise_flatMap]
  constructor
  · intro u hu
    rw [pairwise_map]
    exact (single_literal text).pairwise u.rest
  · refine (hr s).imp ?_
    intro u v hlt x hx y hy
    obtain ⟨u', hu', rfl⟩ := List.mem_map.1 hx
    obtain ⟨v', hv', rfl⟩ := List.mem_map.1 hy
    obtain ⟨_, _, rfl⟩ := mem_literal.1 hu'
    obtain ⟨_, _, rfl⟩ := mem_literal.1 hv'
    rw [Way.andThen, Way.andThen, length_append, length_append]
    exact Nat.add_lt_add_right hlt _

theorem Ascending.group (hr : Ascending r) (index : Nat) : Ascending (.group index r) := by
  intro s
  rw [ways, pairwise_map]
  exact hr s

theorem ascending_plus (p : UInt8 → Bool) : Ascending (plus false p) := (ascending_star p).after_byte p

theorem Ascending.shortest (hr : Ascending r) (hfirst : first (.seq r t) s = some w) : ∃ u v, u ∈ ways r s ∧
    first t u.rest = some v ∧ w = u.andThen v ∧
    ∀ x ∈ ways r s, (first t x.rest).isSome = true → u.piece.length ≤ x.piece.length := by
  obtain ⟨before, u, after, v, hways, hbefore, hv, hw⟩ := first_seq hfirst
  refine ⟨u, v, by rw [hways]; simp, hv, hw, ?_⟩
  intro x hx hsome
  have hsorted := hr s
  rw [hways] at hx hsorted
  rcases mem_append.1 hx with hbefore' | hrest
  · rw [hbefore x hbefore'] at hsome
    cases hsome
  · rcases mem_cons.1 hrest with rfl | hafter
    · exact le_rfl
    · exact (rel_of_pairwise_cons (pairwise_append.1 hsorted).2.1 hafter).le

end First

end Regex
