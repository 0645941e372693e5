import BuildkitService.Lib.Ledger
import BuildkitService.Lib.Strings

/-!
# Regular expressions that are one sequence of character classes

The expressions here have no alternation and no nested repetition: a list of items, each a class of
bytes taken once, at most once, any number of times, or at least once, with or without a capture
group around it.
-/

namespace LinearRegex

open List Ledger

inductive Count where
  | once
  | opt
  | star
  | plus
  deriving DecidableEq, Repr

structure Item where
  class_ : UInt8 → Bool
  count : Count
  captured : Bool

def literal (text : String) : List Item := (ascii text).map fun b => ⟨fun a => a == b, .once, false⟩

def runLength (p : UInt8 → Bool) (s : Bytes) : Nat := (s.takeWhile p).length

def Item.lengths (item : Item) (s : Bytes) : List Nat :=
  let run := runLength item.class_ s
  match item.count with
  | .once => if 1 ≤ run then [1] else []
  | .opt => if 1 ≤ run then [1, 0] else [0]
  | .star => (List.range (run + 1)).reverse
  | .plus => ((List.range run).map (· + 1)).reverse

def matchItems (toEnd : Bool) : List Item → Bytes → Option (List Bytes)
  | [], s => if toEnd && !s.isEmpty then none else some []
  | item :: items, s =>
      (item.lengths s).findSome? fun k =>
        (matchItems toEnd items (s.drop k)).map fun groups =>
          if item.captured then s.take k :: groups else groups

variable {s : Bytes} {item : Item} {groups : List Bytes} {toEnd : Bool} {items : List Item}

theorem Item.takes {k : Nat} (hk : k ∈ item.lengths s) :
    k ≤ s.length ∧ (∀ b ∈ s.take k, item.class_ b = true) ∧
      (item.count = .once → k = 1) ∧ (item.count = .opt → k ≤ 1) ∧ (item.count = .plus → 1 ≤ k) := by
  have hrun : k ≤ runLength item.class_ s ∧ (item.count = .once → k = 1) ∧
      (item.count = .opt → k ≤ 1) ∧ (item.count = .plus → 1 ≤ k) := by
    cases hcount : item.count <;> simp only [Item.lengths, hcount] at hk
    · split at hk <;> simp at hk
      subst hk
      simp_all
    · split at hk <;> simp at hk
      · rcases hk with rfl | rfl <;> simp_all
      · subst hk
        simp
    · simp only [mem_reverse, mem_range] at hk
      simp
      omega
    · simp only [mem_reverse, List.mem_map, mem_range] at hk
      obtain ⟨j, hj, rfl⟩ := hk
      simp
      omega
  obtain ⟨hle, hcounts⟩ := hrun
  have hpre : s.takeWhile item.class_ <+: s := takeWhile_prefix _
  refine ⟨hle.trans hpre.length_le, fun b hb => ?_, hcounts⟩
  have htake : s.take k <+: s.takeWhile item.class_ := by
    rw [prefix_iff_eq_take.1 hpre]
    exact take_prefix_take_left hle
  exact (mem_takeWhile_imp (htake.subset hb))

theorem matchItems_cons (hmatch : matchItems toEnd (item :: items) s = some groups) :
    ∃ k rest, k ∈ item.lengths s ∧ matchItems toEnd items (s.drop k) = some rest ∧
      groups = if item.captured then s.take k :: rest else rest := by
  simp only [matchItems, findSome?_eq_some_iff] at hmatch
  obtain ⟨_, k, _, hlengths, hfound, _⟩ := hmatch
  obtain ⟨rest, hrest, hgroups⟩ := Option.map_eq_some_iff.1 hfound
  exact ⟨k, rest, by rw [hlengths]; simp, hrest, hgroups.symm⟩

structure Item.Takes (item : Item) (piece : Bytes) : Prop where
  class_ : ∀ b ∈ piece, item.class_ b = true
  once : item.count = .once → piece.length = 1
  opt : item.count = .opt → piece.length ≤ 1
  plus : item.count = .plus → 1 ≤ piece.length

theorem matchItems_item (hmatch : matchItems toEnd (item :: items) s = some groups) :
    ∃ piece rest others, s = piece ++ rest ∧ item.Takes piece ∧ matchItems toEnd items rest = some others ∧
      groups = if item.captured then piece :: others else others := by
  obtain ⟨k, others, hk, hrest, hgroups⟩ := matchItems_cons hmatch
  obtain ⟨hle, hclass, honce, hopt, hplus⟩ := Item.takes hk
  have hlength : (s.take k).length = k := by rw [length_take, Nat.min_eq_left hle]
  refine ⟨s.take k, s.drop k, others, (take_append_drop k s).symm, ⟨hclass, ?_, ?_, ?_⟩, hrest, hgroups⟩
  · rw [hlength]
    exact honce
  · rw [hlength]
    exact hopt
  · rw [hlength]
    exact hplus

theorem matchItems_literal {text : String} (hmatch : matchItems toEnd (literal text ++ items) s = some groups) :
    ∃ rest, s = ascii text ++ rest ∧ matchItems toEnd items rest = some groups := by
  rw [literal] at hmatch
  generalize ascii text = bytes at hmatch ⊢
  induction bytes generalizing s with
  | nil => exact ⟨s, rfl, hmatch⟩
  | cons b bytes ih =>
    obtain ⟨piece, rest, others, rfl, htakes, hrest, hgroups⟩ := matchItems_item hmatch
    obtain ⟨a, rfl⟩ := length_eq_one_iff.1 (htakes.once rfl)
    have hb : a = b := beq_iff_eq.1 (htakes.class_ a mem_cons_self)
    subst hb
    obtain rfl : groups = others := hgroups
    obtain ⟨later, rfl, hlater⟩ := ih hrest
    exact ⟨later, rfl, hlater⟩

def Item.least (item : Item) : Nat :=
  if item.captured then 0
  else match item.count with
    | .once | .plus => 1
    | .opt | .star => 0

theorem matchItems_length (hmatch : matchItems toEnd items s = some groups) :
    total Item.least items + total length groups ≤ s.length := by
  induction items generalizing s groups with
  | nil =>
    rw [matchItems] at hmatch
    split_ifs at hmatch
    rw [← Option.some.inj hmatch]
    exact Nat.zero_le _
  | cons item items ih =>
    obtain ⟨k, rest, hk, hrest, hgroups⟩ := matchItems_cons hmatch
    obtain ⟨hle, _, honce, _, hplus⟩ := Item.takes hk
    have hlater := ih hrest
    rw [length_drop] at hlater
    rw [hgroups, total_cons, Item.least]
    split_ifs
    · rw [total_cons, length_take]
      omega
    · split
      · have hone := honce (by assumption)
        omega
      · have hone := hplus (by assumption)
        omega
      · omega
      · omega

end LinearRegex
