import Mathlib.Algebra.Order.Ring.Int
import Mathlib.Data.List.Infix
import Mathlib.Data.List.DropRight

/-!
# Go strings

A Go string is a sequence of bytes, and the functions of the `strings` package that classify or map
runes decode it as UTF-8.
-/

abbrev Bytes := List UInt8

instance : LawfulBEq Bytes := inferInstance

instance : LawfulBEq (List Bytes) := inferInstance

def ascii (text : String) : Bytes := text.toList.map fun c => UInt8.ofNat c.toNat

def decimal (n : Nat) : Bytes := (Nat.toDigits 10 n).map fun c => UInt8.ofNat c.toNat

namespace Strings

open List

def hasPrefix (s pre : Bytes) : Bool := pre.isPrefixOf s

def hasSuffix (s suf : Bytes) : Bool := suf.isSuffixOf s

def trimPrefix (s pre : Bytes) : Bytes := if hasPrefix s pre then s.drop pre.length else s

def trimSuffix (s suf : Bytes) : Bytes :=
  if hasSuffix s suf then s.take (s.length - suf.length) else s

def contains (s sub : Bytes) : Bool := s.tails.any fun t => sub.isPrefixOf t

def containsAny (s chars : Bytes) : Bool := s.any fun b => chars.contains b

def trimLeft (s cutset : Bytes) : Bytes := s.dropWhile fun b => cutset.contains b

def trimRight (s cutset : Bytes) : Bytes := s.rdropWhile fun b => cutset.contains b

def trim (s cutset : Bytes) : Bytes := trimRight (trimLeft s cutset) cutset

def indexAny (s chars : Bytes) : Option Nat := s.findIdx? fun b => chars.contains b

/-! ### White space -/

def asciiSpace (a : UInt8) : Bool := (0x09 ≤ a && a ≤ 0x0D) || a == 0x20

def space2 (a b : UInt8) : Bool := a == 0xC2 && (b == 0x85 || b == 0xA0)

def space3 (a b c : UInt8) : Bool :=
  (a == 0xE1 && b == 0x9A && c == 0x80) ||
  (a == 0xE2 && b == 0x80 && ((0x80 ≤ c && c ≤ 0x8A) || c == 0xA8 || c == 0xA9 || c == 0xAF)) ||
  (a == 0xE2 && b == 0x81 && c == 0x9F) ||
  (a == 0xE3 && b == 0x80 && c == 0x80)

def trimLeftSpace : Bytes → Bytes
  | [] => []
  | [a] => if asciiSpace a then [] else [a]
  | [a, b] => if asciiSpace a then trimLeftSpace [b] else if space2 a b then [] else [a, b]
  | a :: b :: c :: s =>
      if asciiSpace a then trimLeftSpace (b :: c :: s)
      else if space2 a b then trimLeftSpace (c :: s)
      else if space3 a b c then trimLeftSpace s
      else a :: b :: c :: s

def dropSpaceBack : Bytes → Bytes
  | [] => []
  | [a] => if asciiSpace a then [] else [a]
  | [a, b] => if asciiSpace a then dropSpaceBack [b] else if space2 b a then [] else [a, b]
  | a :: b :: c :: s =>
      if asciiSpace a then dropSpaceBack (b :: c :: s)
      else if space2 b a then dropSpaceBack (c :: s)
      else if space3 c b a then dropSpaceBack s
      else a :: b :: c :: s

def trimRightSpace (s : Bytes) : Bytes := (dropSpaceBack s.reverse).reverse

def trimSpace (s : Bytes) : Bytes := trimRightSpace (trimLeftSpace s)

theorem space2_high {a b : UInt8} (hspace : space2 a b = true) : 0x80 ≤ a ∧ 0x80 ≤ b := by
  simp only [space2, Bool.and_eq_true, Bool.or_eq_true, beq_iff_eq] at hspace
  obtain ⟨rfl, rfl | rfl⟩ := hspace
  · decide
  · decide

variable {c : UInt8}

theorem space3_high {a b : UInt8} (hspace : space3 a b c = true) : 0x80 ≤ a ∧ 0x80 ≤ b ∧ 0x80 ≤ c := by
  simp only [space3, Bool.and_eq_true, Bool.or_eq_true, beq_iff_eq, decide_eq_true_eq] at hspace
  rcases hspace with ((⟨⟨rfl, rfl⟩, rfl⟩ | ⟨⟨rfl, rfl⟩, hlast⟩) | ⟨⟨rfl, rfl⟩, rfl⟩) | ⟨⟨rfl, rfl⟩, rfl⟩
  · decide
  · refine ⟨by decide, by decide, ?_⟩
    rcases hlast with ((⟨hlow, _⟩ | rfl) | rfl) | rfl
    · exact hlow
    · decide
    · decide
    · decide
  · decide
  · decide

variable {s t suf : Bytes} {sep : UInt8}

/-!
### Trimmed texts

Both functions drop one character of white space after another, where the characters of two and of
three bytes are spelled forwards or backwards.
-/

def spaceLead (two : UInt8 → UInt8 → Bool) (three : UInt8 → UInt8 → UInt8 → Bool) : Bytes → Nat
  | [] => 0
  | [a] => if asciiSpace a then 1 else 0
  | [a, b] => if asciiSpace a then 1 else if two a b then 2 else 0
  | a :: b :: c :: _ => if asciiSpace a then 1 else if two a b then 2 else if three a b c then 3 else 0

inductive Trims (two : UInt8 → UInt8 → Bool) (three : UInt8 → UInt8 → UInt8 → Bool) : Bytes → Bytes → Prop
  | stop {s : Bytes} (hlead : spaceLead two three s = 0) : Trims two three s s
  | next {s t : Bytes} (hlead : spaceLead two three s ≠ 0)
      (hrest : Trims two three (s.drop (spaceLead two three s)) t) : Trims two three s t

theorem trimLeftSpace_trims (s : Bytes) : Trims space2 space3 s (trimLeftSpace s) := by
  fun_induction trimLeftSpace s with
  | case1 => exact .stop rfl
  | case2 a hspace => exact .next (by simp [spaceLead, hspace]) (by simpa [spaceLead, hspace] using .stop rfl)
  | case3 a hspace => exact .stop (by simp [spaceLead, hspace])
  | case4 a b hspace ih | case7 a b c s hspace ih =>
    exact .next (by simp [spaceLead, hspace]) (by simpa [spaceLead, hspace] using ih)
  | case5 a b hspace htwo =>
    exact .next (by simp [spaceLead, hspace, htwo]) (by simpa [spaceLead, hspace, htwo] using .stop rfl)
  | case6 a b hspace htwo => exact .stop (by simp [spaceLead, hspace, htwo])
  | case8 a b c s hspace htwo ih =>
    exact .next (by simp [spaceLead, hspace, htwo]) (by simpa [spaceLead, hspace, htwo] using ih)
  | case9 a b c s hspace htwo hthree ih =>
    exact .next (by simp [spaceLead, hspace, htwo, hthree]) (by simpa [spaceLead, hspace, htwo, hthree] using ih)
  | case10 a b c s hspace htwo hthree => exact .stop (by simp [spaceLead, hspace, htwo, hthree])

theorem dropSpaceBack_trims (s : Bytes) :
    Trims (fun a b => space2 b a) (fun a b c => space3 c b a) s (dropSpaceBack s) := by
  fun_induction dropSpaceBack s with
  | case1 => exact .stop rfl
  | case2 a hspace => exact .next (by simp [spaceLead, hspace]) (by simpa [spaceLead, hspace] using .stop rfl)
  | case3 a hspace => exact .stop (by simp [spaceLead, hspace])
  | case4 a b hspace ih | case7 a b c s hspace ih =>
    exact .next (by simp [spaceLead, hspace]) (by simpa [spaceLead, hspace] using ih)
  | case5 a b hspace htwo =>
    exact .next (by simp [spaceLead, hspace, htwo]) (by simpa [spaceLead, hspace, htwo] using .stop rfl)
  | case6 a b hspace htwo => exact .stop (by simp [spaceLead, hspace, htwo])
  | case8 a b c s hspace htwo ih =>
    exact .next (by simp [spaceLead, hspace, htwo]) (by simpa [spaceLead, hspace, htwo] using ih)
  | case9 a b c s hspace htwo hthree ih =>
    exact .next (by simp [spaceLead, hspace, htwo, hthree]) (by simpa [spaceLead, hspace, htwo, hthree] using ih)
  | case10 a b c s hspace htwo hthree => exact .stop (by simp [spaceLead, hspace, htwo, hthree])

section Trims

variable {two : UInt8 → UInt8 → Bool} {three : UInt8 → UInt8 → UInt8 → Bool} {a b : UInt8}

theorem spaceLead_append (two : UInt8 → UInt8 → Bool) (three : UInt8 → UInt8 → UInt8 → Bool) (s t : Bytes) :
    spaceLead two three (s ++ t) = spaceLead two three s ∨
      spaceLead two three s = 0 ∧ s.length < spaceLead two three (s ++ t) := by
  match s, t with
  | [], t => grind [spaceLead]
  | [a], [] | [a], [b] | [a], b :: c :: t => grind [spaceLead]
  | [a, b], [] | [a, b], c :: t => grind [spaceLead]
  | a :: b :: c :: s, t => exact .inl rfl

theorem spaceLead_of_isPrefix (hlead : spaceLead two three s = 0) (hpre : t <+: s) : spaceLead two three t = 0 := by
  obtain ⟨r, rfl⟩ := hpre
  rcases spaceLead_append two three t r with hsame | ⟨hzero, _⟩
  · rw [← hsame, hlead]
  · exact hzero

theorem spaceLead_le (s : Bytes) : spaceLead two three s ≤ s.length := by
  match s with
  | [] => exact le_rfl
  | [a] | [a, b] | a :: b :: c :: s =>
    simp only [spaceLead, length_cons]
    split_ifs <;> omega

namespace Trims

section

variable (htrims : Trims two three s t)

include htrims

theorem suffix : t <:+ s := by
  induction htrims with
  | stop hlead => exact suffix_rfl
  | next hlead hrest ih => exact ih.trans (drop_suffix _ _)

theorem spaceLead_eq_zero : spaceLead two three t = 0 := by
  induction htrims with
  | stop hlead => exact hlead
  | next hlead hrest ih => exact ih

theorem eq_of_spaceLead (hlead : spaceLead two three s = 0) : t = s := by
  cases htrims with
  | stop => rfl
  | next hne hrest => exact absurd hlead hne

theorem unique {t' : Bytes} (htrims' : Trims two three s t') : t = t' := by
  induction htrims with
  | stop hlead => exact (htrims'.eq_of_spaceLead hlead).symm
  | next hlead hrest ih =>
    cases htrims' with
    | stop hzero => exact absurd hzero hlead
    | next _ hrest' => exact ih hrest'

end

theorem space (ha : asciiSpace a = true) (htrims : Trims two three s t) : Trims two three (a :: s) t := by
  have hlead : spaceLead two three (a :: s) = 1 := by
    match s with
    | [] | [b] | b :: c :: s => rw [spaceLead, if_pos ha]
  refine .next (by omega) ?_
  rwa [hlead]

end Trims

structure High (two : UInt8 → UInt8 → Bool) (three : UInt8 → UInt8 → UInt8 → Bool) : Prop where
  pair : ∀ {a b}, two a b = true → 0x80 ≤ a ∧ 0x80 ≤ b
  triple : ∀ {a b c}, three a b c = true → 0x80 ≤ a ∧ 0x80 ≤ b ∧ 0x80 ≤ c

theorem high_forward : High space2 space3 := ⟨space2_high, space3_high⟩

theorem high_back : High (fun a b => space2 b a) (fun a b c => space3 c b a) where
  pair hspace := (space2_high hspace).symm
  triple hspace := ⟨(space3_high hspace).2.2, (space3_high hspace).2.1, (space3_high hspace).1⟩

variable (hhigh : High two three)

include hhigh

theorem spaceLead_bytes (s : Bytes) : (spaceLead two three s = 1 ∧ ∃ a ∈ s.head?, asciiSpace a = true) ∨
      ∀ a ∈ s.take (spaceLead two three s), 0x80 ≤ a := by
  have hpair := @hhigh.pair
  have htriple := @hhigh.triple
  match s with
  | [] => exact .inr (by simp)
  | [a] | [a, b] | a :: b :: c :: s => grind [spaceLead]

variable (hlow : b < 0x80)

include hlow

theorem spaceLead_low (hs : s ≠ []) (hlead : spaceLead two three s = 0) (t : Bytes) :
    spaceLead two three (s ++ b :: t) = 0 := by
  rcases spaceLead_append two three s (b :: t) with hsame | ⟨_, hlong⟩
  · rw [hsame, hlead]
  · have hpos := length_pos_iff.2 hs
    rcases spaceLead_bytes hhigh (s ++ b :: t) with ⟨hone, _⟩ | hbytes
    · omega
    · have hmem : b ∈ (s ++ b :: t).take (spaceLead two three (s ++ b :: t)) := by
        rw [take_append, take_of_length_le hlong.le, take_cons (by omega)]
        simp
      exact absurd (hbytes b hmem) (UInt8.not_le.2 hlow)

variable (hb : asciiSpace b = false)

include hb

theorem not_mem_spaceLead (s : Bytes) : b ∉ s.take (spaceLead two three s) := by
  intro hmem
  rcases spaceLead_bytes hhigh s with ⟨hone, a, ha, hspace⟩ | hbytes
  · rw [hone] at hmem
    obtain ⟨s', rfl⟩ := head?_eq_some_iff.1 ha
    rw [take_succ_cons, take_zero, mem_singleton] at hmem
    rw [hmem, hspace] at hb
    cases hb
  · exact UInt8.not_le.2 hlow (hbytes b hmem)

theorem spaceLead_le_before (t s : Bytes) : spaceLead two three (t ++ b :: s) ≤ t.length := by
  by_contra hlong
  refine not_mem_spaceLead hhigh hlow hb (t ++ b :: s) ?_
  rw [take_append, take_of_length_le (by omega), take_cons (by omega)]
  simp

namespace Trims

theorem mem (htrims : Trims two three s t) (hmem : b ∈ s) : b ∈ t := by
  induction htrims with
  | stop hlead => exact hmem
  | @next s t hlead hrest ih =>
    rw [← take_append_drop (spaceLead two three s) s, mem_append] at hmem
    exact ih (hmem.resolve_left (not_mem_spaceLead hhigh hlow hb s))

theorem eq_cons (htrims : Trims two three (b :: s) t) : t = b :: s :=
  htrims.eq_of_spaceLead (Nat.le_zero.1 (spaceLead_le_before hhigh hlow hb [] s))

theorem keeps {u : Bytes} (htrims : Trims two three s u) {r : Bytes} (hs : s = t ++ b :: r) :
    ∃ back, back <:+ t ∧ u = back ++ b :: r := by
  induction htrims generalizing t with
  | stop hlead => exact ⟨t, suffix_rfl, hs⟩
  | @next s u hlead hrest ih =>
    have hle : spaceLead two three s ≤ t.length := hs ▸ spaceLead_le_before hhigh hlow hb t r
    obtain ⟨back, hback, hu⟩ := ih (t := t.drop (spaceLead two three s))
      (by rw [hs, drop_append_of_le_length (hs ▸ hle)])
    exact ⟨back, hback.trans (drop_suffix _ t), hu⟩

theorem front {u : Bytes} (htrims : Trims two three s u) (hu : u = b :: t) :
    ∃ front, s = front ++ b :: t ∧ ∀ t', Trims two three (front ++ b :: t') (b :: t') := by
  induction htrims with
  | stop hlead =>
    refine ⟨[], hu, fun t' => .stop ?_⟩
    exact Nat.le_zero.1 (spaceLead_le_before hhigh hlow hb [] t')
  | @next s u hlead hrest ih =>
    obtain ⟨front, hfront, hnext⟩ := ih hu
    have hlen : (s.take (spaceLead two three s)).length = spaceLead two three s :=
      length_take_of_le (spaceLead_le s)
    have hfirst : spaceLead two three (s.take (spaceLead two three s)) = spaceLead two three s := by
      rcases spaceLead_append two three (s.take (spaceLead two three s))
        (s.drop (spaceLead two three s)) with hsame | ⟨_, hlong⟩
      · rw [← hsame, take_append_drop]
      · rw [take_append_drop] at hlong
        omega
    refine ⟨s.take (spaceLead two three s) ++ front, ?_, fun t' => ?_⟩
    · rw [append_assoc, ← hfront, take_append_drop]
    · have hsame : spaceLead two three (s.take (spaceLead two three s) ++ (front ++ b :: t')) =
          spaceLead two three s := by
        rcases spaceLead_append two three (s.take (spaceLead two three s))
          (front ++ b :: t') with hsame | ⟨hzero, _⟩
        · rw [hsame, hfirst]
        · exact absurd (hfirst.symm.trans hzero) hlead
      rw [append_assoc]
      refine .next (by rwa [hsame]) ?_
      rw [hsame, drop_left' hlen]
      exact hnext t'

end Trims

end Trims

theorem trimLeftSpace_suffix (s : Bytes) : trimLeftSpace s <:+ s := (trimLeftSpace_trims s).suffix

theorem trimLeftSpace_eq_self_iff : trimLeftSpace s = s ↔ spaceLead space2 space3 s = 0 :=
  ⟨fun htrim => htrim ▸ (trimLeftSpace_trims s).spaceLead_eq_zero, (trimLeftSpace_trims s).eq_of_spaceLead⟩

theorem trimLeftSpace_space {a : UInt8} (ha : asciiSpace a = true) (s : Bytes) :
    trimLeftSpace (a :: s) = trimLeftSpace s :=
  (trimLeftSpace_trims _).unique ((trimLeftSpace_trims s).space ha)

theorem dropSpaceBack_space {a : UInt8} (ha : asciiSpace a = true) (s : Bytes) :
    dropSpaceBack (a :: s) = dropSpaceBack s :=
  (dropSpaceBack_trims _).unique ((dropSpaceBack_trims s).space ha)

theorem length_trimRightSpace_le (s : Bytes) : (trimRightSpace s).length ≤ s.length := by
  rw [trimRightSpace, length_reverse]
  calc (dropSpaceBack s.reverse).length ≤ s.reverse.length := (dropSpaceBack_trims _).suffix.length_le
    _ = s.length := length_reverse

theorem trimLeftSpace_of_trimmed (htrim : trimSpace s = s) : trimLeftSpace s = s := by
  refine (trimLeftSpace_suffix s).eq_of_length_le ?_
  calc s.length = (trimSpace s).length := by rw [htrim]
    _ ≤ (trimLeftSpace s).length := length_trimRightSpace_le _

section Low

variable {b : UInt8} (hlow : b < 0x80)

include hlow

theorem ne_of_high {a : UInt8} (ha : 0x80 ≤ a) : b ≠ a := by
  rintro rfl
  exact UInt8.not_lt.2 ha hlow

theorem trimLeftSpace_append (t : Bytes) (hleft : trimLeftSpace s = s) (hs : s ≠ []) :
    trimLeftSpace (s ++ b :: t) = s ++ b :: t :=
  trimLeftSpace_eq_self_iff.2 (spaceLead_low high_forward hlow hs (trimLeftSpace_eq_self_iff.1 hleft) t)

variable (hb : asciiSpace b = false)

include hb

theorem trimLeftSpace_cons (s : Bytes) : trimLeftSpace (b :: s) = b :: s :=
  (trimLeftSpace_trims _).eq_cons high_forward hlow hb

theorem dropSpaceBack_cons (s : Bytes) : dropSpaceBack (b :: s) = b :: s :=
  (dropSpaceBack_trims _).eq_cons high_back hlow hb

theorem mem_trimSpace (hmem : b ∈ s) : b ∈ trimSpace s := by
  rw [trimSpace, trimRightSpace, mem_reverse]
  refine (dropSpaceBack_trims _).mem high_back hlow hb (mem_reverse.2 ?_)
  exact (trimLeftSpace_trims s).mem high_forward hlow hb hmem

theorem trimRightSpace_concat (s : Bytes) : trimRightSpace (s ++ [b]) = s ++ [b] := by
  rw [trimRightSpace, reverse_append, reverse_singleton, singleton_append, dropSpaceBack_cons hlow hb,
    reverse_cons, reverse_reverse]

theorem trimRightSpace_keeps (s t : Bytes) : ∃ r, r <+: t ∧ trimRightSpace (s ++ b :: t) = s ++ b :: r := by
  have hreverse : (s ++ b :: t).reverse = t.reverse ++ b :: s.reverse := by
    rw [reverse_append, reverse_cons, append_assoc, singleton_append]
  obtain ⟨r, hr, hback⟩ := (dropSpaceBack_trims _).keeps high_back hlow hb hreverse
  refine ⟨r.reverse, reverse_suffix.1 (by rwa [reverse_reverse]), ?_⟩
  rw [trimRightSpace, hback, reverse_append, reverse_cons, reverse_reverse, append_assoc,
    singleton_append]

theorem trimLeftSpace_front (htrim : trimLeftSpace s = b :: t) :
    ∃ front, s = front ++ b :: t ∧ ∀ t', trimLeftSpace (front ++ b :: t') = b :: t' := by
  obtain ⟨front, hfront, hnext⟩ := (trimLeftSpace_trims s).front high_forward hlow hb htrim
  exact ⟨front, hfront, fun t' => (trimLeftSpace_trims _).unique (hnext t')⟩

end Low

theorem trimLeftSpace_of_prefix (hpre : t <+: trimLeftSpace s) : trimLeftSpace t = t :=
  trimLeftSpace_eq_self_iff.2 (spaceLead_of_isPrefix (trimLeftSpace_trims s).spaceLead_eq_zero hpre)

theorem trimRightSpace_isPrefix (s : Bytes) : trimRightSpace s <+: s := by
  rw [← reverse_suffix, trimRightSpace, reverse_reverse]
  exact (dropSpaceBack_trims s.reverse).suffix

theorem trimSpace_trimSpace (s : Bytes) : trimSpace (trimSpace s) = trimSpace s := by
  have hleft : trimLeftSpace (trimSpace s) = trimSpace s :=
    trimLeftSpace_of_prefix (trimRightSpace_isPrefix _)
  have hback : dropSpaceBack (dropSpaceBack (trimLeftSpace s).reverse) = dropSpaceBack (trimLeftSpace s).reverse :=
    (dropSpaceBack_trims _).eq_of_spaceLead (dropSpaceBack_trims _).spaceLead_eq_zero
  rw [trimSpace, hleft, trimSpace, trimRightSpace, trimRightSpace, reverse_reverse, hback]

theorem trimSpace_isInfix (s : Bytes) : trimSpace s <:+: s :=
  (trimRightSpace_isPrefix _).isInfix.trans (trimLeftSpace_suffix s).isInfix

theorem asciiSpace_of_trimSpace {a : UInt8} (htrim : trimSpace s = a :: t) : asciiSpace a = false := by
  have hleft : trimLeftSpace (a :: t) = a :: t := by
    rw [← htrim]
    exact trimLeftSpace_of_prefix (trimRightSpace_isPrefix _)
  rw [Bool.eq_false_iff]
  intro ha
  rw [trimLeftSpace_space ha] at hleft
  have hle := (trimLeftSpace_suffix t).length_le
  rw [hleft, length_cons] at hle
  omega

theorem trimLeftSpace_spaces {front : Bytes} (hfront : ∀ a ∈ front, asciiSpace a = true) (s : Bytes) :
    trimLeftSpace (front ++ s) = trimLeftSpace s := by
  induction front with
  | nil => rfl
  | cons a front ih =>
    obtain ⟨ha, hrest⟩ := forall_mem_cons.1 hfront
    rw [cons_append, trimLeftSpace_space ha, ih hrest]

theorem trimSpace_keeps {a b : UInt8} (halow : a < 0x80) (ha : asciiSpace a = false) (hblow : b < 0x80)
    (hb : asciiSpace b = false) (s t : Bytes) :
    ∃ r, r <+: t ∧ trimSpace (a :: s ++ b :: t) = a :: s ++ b :: r := by
  rw [trimSpace, cons_append, trimLeftSpace_cons halow ha, ← cons_append]
  exact trimRightSpace_keeps hblow hb (a :: s) t

theorem trimRight_keeps {b : UInt8} {cutset : Bytes} (hb : cutset.contains b = false) (s t : Bytes) :
    ∃ r, r <+: t ∧ trimRight (s ++ b :: t) cutset = s ++ b :: r := by
  induction t using reverseRecOn with
  | nil =>
    refine ⟨[], prefix_rfl, ?_⟩
    rw [trimRight, rdropWhile_concat_neg]
    rw [hb]
    exact Bool.false_ne_true
  | append_singleton t a ih =>
    rw [← cons_append, ← append_assoc, trimRight]
    by_cases ha : cutset.contains a = true
    · obtain ⟨r, hr, htrim⟩ := ih
      rw [rdropWhile_concat_pos _ _ _ ha]
      exact ⟨r, hr.trans (prefix_append t [a]), htrim⟩
    · rw [rdropWhile_concat_neg _ _ _ ha]
      exact ⟨t ++ [a], prefix_rfl, by rw [append_assoc, cons_append]⟩

theorem contains_iff {sub : Bytes} : contains s sub = true ↔ sub <:+: s := by
  rw [contains, List.any_eq_true]
  constructor
  · rintro ⟨t, ht, hsub⟩
    exact (List.isPrefixOf_iff_prefix.1 hsub).isInfix.trans ((mem_tails _ _).1 ht).isInfix
  · rintro ⟨front, back, rfl⟩
    refine ⟨sub ++ back, (mem_tails _ _).2 ?_, isPrefixOf_iff_prefix.2 (prefix_append sub back)⟩
    rw [append_assoc]
    exact suffix_append front (sub ++ back)

theorem trimSpace_of_plain (hs : ∀ b ∈ s, b < 0x80 ∧ asciiSpace b = false) : trimSpace s = s := by
  have hleft : trimLeftSpace s = s := by
    cases s with
    | nil => rfl
    | cons b s => exact trimLeftSpace_cons (hs b (by simp)).1 (hs b (by simp)).2 s
  rw [trimSpace, hleft]
  rcases eq_nil_or_concat s with rfl | ⟨t, b, rfl⟩
  · rfl
  · rw [concat_eq_append] at hs ⊢
    exact trimRightSpace_concat (hs b (by simp)).1 (hs b (by simp)).2 t

/-! ### Suffixes -/

theorem trimPrefix_of_not {pre : Bytes} (hnot : ¬ pre <+: s) : trimPrefix s pre = s := by
  rw [trimPrefix, hasPrefix, if_neg]
  rwa [List.isPrefixOf_iff_prefix]

theorem trimPrefix_append (pre s : Bytes) : trimPrefix (pre ++ s) pre = s := by
  rw [trimPrefix, hasPrefix, if_pos (List.isPrefixOf_iff_prefix.2 (prefix_append pre s)), drop_left]

theorem hasSuffix_iff : hasSuffix s suf = true ↔ ∃ stem, s = stem ++ suf := by
  rw [hasSuffix, isSuffixOf_iff_suffix]
  exact ⟨fun ⟨stem, h⟩ => ⟨stem, h.symm⟩, fun ⟨stem, h⟩ => ⟨stem, h.symm⟩⟩

theorem trimSuffix_append (s suf : Bytes) : trimSuffix (s ++ suf) suf = s := by
  rw [trimSuffix, if_pos (hasSuffix_iff.2 ⟨s, rfl⟩), length_append, Nat.add_sub_cancel, take_left']
  rfl

theorem trimSuffix_of_not (hsuf : hasSuffix s suf = false) : trimSuffix s suf = s := by
  rw [trimSuffix, hsuf]
  rfl

theorem hasSuffix_append_cons (hc : c ∉ suf) (s t : Bytes) :
    hasSuffix (s ++ c :: t) suf = hasSuffix t suf := by
  rw [Bool.eq_iff_iff, hasSuffix_iff, hasSuffix_iff]
  constructor
  · rintro ⟨stem, hstem⟩
    rcases append_eq_append_iff.1 hstem with ⟨mid, _, hmid⟩ | ⟨mid, _, hmid⟩
    · cases mid with
      | nil =>
        rw [nil_append] at hmid
        exact absurd (hmid ▸ mem_cons_self) hc
      | cons a mid =>
        rw [cons_append] at hmid
        exact ⟨mid, (List.cons.inj hmid).2⟩
    · exact absurd (hmid ▸ mem_append_right mid mem_cons_self) hc
  · rintro ⟨stem, rfl⟩
    exact ⟨s ++ c :: stem, by rw [append_assoc, cons_append]⟩

theorem trimSuffix_append_cons (hc : c ∉ suf) (s t : Bytes) :
    trimSuffix (s ++ c :: t) suf = s ++ c :: trimSuffix t suf := by
  cases hsuf : hasSuffix t suf with
  | true =>
    obtain ⟨stem, rfl⟩ := hasSuffix_iff.1 hsuf
    rw [trimSuffix_append, ← cons_append, ← append_assoc, trimSuffix_append]
  | false => rw [trimSuffix_of_not hsuf, trimSuffix_of_not ((hasSuffix_append_cons hc s t).trans hsuf)]

/-! ### Case -/

def lowerByte (a : UInt8) : UInt8 := if 0x41 ≤ a && a ≤ 0x5A then a + 0x20 else a

def upperByte (a : UInt8) : UInt8 := if 0x61 ≤ a && a ≤ 0x7A then a - 0x20 else a

def toLower : Bytes → Bytes
  | [] => []
  | [a] => [lowerByte a]
  | [a, b] => if a == 0xC4 && b == 0xB0 then [0x69] else lowerByte a :: toLower [b]
  | a :: b :: c :: s =>
      if a == 0xC4 && b == 0xB0 then 0x69 :: toLower (c :: s)
      else if a == 0xE2 && b == 0x84 && c == 0xAA then 0x6B :: toLower s
      else lowerByte a :: toLower (b :: c :: s)

def toUpper : Bytes → Bytes
  | [] => []
  | [a] => [upperByte a]
  | a :: b :: s =>
      if a == 0xC4 && b == 0xB1 then 0x49 :: toUpper s
      else if a == 0xC5 && b == 0xBF then 0x53 :: toUpper s
      else upperByte a :: toUpper (b :: s)

theorem toUpper_cons {a : UInt8} (ha : a < 0x80) (s : Bytes) : toUpper (a :: s) = upperByte a :: toUpper s := by
  have hne : ∀ b : UInt8, 0x80 ≤ b → (a == b) = false := by
    intro b hb
    exact beq_eq_false_iff_ne.2 (ne_of_high ha hb)
  cases s with
  | nil => rfl
  | cons b s =>
    rw [toUpper, hne 0xC4 (by decide), hne 0xC5 (by decide)]
    rfl

theorem toLower_ascii (hs : ∀ a ∈ s, a < 0x80) : toLower s = s.map lowerByte := by
  have hne {a b : UInt8} (ha : a < 0x80) (hb : 0x80 ≤ b) : (a == b) = false := beq_eq_false_iff_ne.2 (ne_of_high ha hb)
  fun_induction toLower s with
  | case1 | case2 => rfl
  | case3 a b hspecial | case5 a b c s hspecial | case6 a b c s _ hspecial =>
    rw [hne (hs a (by simp)) (by decide)] at hspecial
    cases hspecial
  | case4 a b _ ih | case7 a b c s _ _ ih =>
    rw [ih fun d hd => hs d (mem_cons_of_mem a hd)]
    rfl

/-! ### Splitting -/

def splitAfter (sep : UInt8) : Bytes → List Bytes
  | [] => [[]]
  | a :: s =>
      if a == sep then [a] :: splitAfter sep s
      else match splitAfter sep s with
        | [] => [[a]]
        | piece :: pieces => (a :: piece) :: pieces

def split (sep : UInt8) : Bytes → List Bytes
  | [] => [[]]
  | a :: s =>
      if a == sep then [] :: split sep s
      else match split sep s with
        | [] => [[a]]
        | piece :: pieces => (a :: piece) :: pieces

def cut (sep : UInt8) : Bytes → Option (Bytes × Bytes)
  | [] => none
  | a :: s => if a == sep then some ([], s) else (cut sep s).map fun parts => (a :: parts.1, parts.2)

theorem cut_eq_some {before after : Bytes} (hcut : cut sep s = some (before, after)) : s = before ++ sep :: after := by
  induction s generalizing before with
  | nil => cases hcut
  | cons a s ih =>
    rw [cut] at hcut
    split at hcut
    · rename_i ha
      cases hcut
      rw [beq_iff_eq.1 ha, nil_append]
    · obtain ⟨parts, hrest, heq⟩ := Option.map_eq_some_iff.1 hcut
      cases heq
      rw [ih hrest, cons_append]

/-! ### Numbers -/

def digits (s : Bytes) : Option Nat :=
  if s.isEmpty then none
  else s.foldlM (fun n b => if 0x30 ≤ b && b ≤ 0x39 then some (10 * n + (b - 0x30).toNat) else none) 0

def atoi (s : Bytes) : Option Int :=
  match s with
  | 0x2D :: s => (digits s).bind fun n => if n ≤ 2 ^ 63 then some (-n) else none
  | 0x2B :: s => (digits s).bind fun n => if n < 2 ^ 63 then some n else none
  | s => (digits s).bind fun n => if n < 2 ^ 63 then some n else none

/-! ### Comparing -/

def less : Bytes → Bytes → Bool
  | _, [] => false
  | [], _ :: _ => true
  | a :: s, b :: t => a < b || (a == b && less s t)

theorem less_iff (s t : Bytes) : less s t = true ↔ s < t := by
  induction s generalizing t with
  | nil => cases t <;> simp [less]
  | cons a s ih =>
    cases t with
    | nil => simp [less]
    | cons b t => simp [less, cons_lt_cons_iff, ih]

instance : IsStrictTotalOrder Bytes (· < ·) where

/-! ### Quoting -/

def hexDigit (n : UInt8) : UInt8 := if n < 10 then 0x30 + n else 0x57 + n

def quoteByte (a : UInt8) : Bytes :=
  if a == 0x22 || a == 0x5C then [0x5C, a]
  else if a == 0x07 then ascii "\\a"
  else if a == 0x08 then ascii "\\b"
  else if a == 0x09 then ascii "\\t"
  else if a == 0x0A then ascii "\\n"
  else if a == 0x0B then ascii "\\v"
  else if a == 0x0C then ascii "\\f"
  else if a == 0x0D then ascii "\\r"
  else if a < 0x20 || a == 0x7F then ascii "\\x" ++ [hexDigit (a / 16), hexDigit (a % 16)]
  else [a]

def quote (s : Bytes) : Bytes := [0x22] ++ s.flatMap quoteByte ++ [0x22]

theorem splitAfter_flatten (sep : UInt8) (s : Bytes) : (splitAfter sep s).flatten = s := by
  induction s with
  | nil => rfl
  | cons a s ih =>
    simp only [splitAfter]
    split
    · simp only [flatten_cons, ih, singleton_append]
    · cases hpieces : splitAfter sep s with
      | nil =>
        rw [hpieces] at ih
        simp only [flatten_nil] at ih
        subst ih
        rfl
      | cons piece pieces =>
        rw [hpieces] at ih
        simp only [flatten_cons] at ih ⊢
        rw [cons_append, ih]

theorem splitAfter_plain (hs : sep ∉ s) : splitAfter sep s = [s] := by
  induction s with
  | nil => rfl
  | cons a s ih =>
    rw [mem_cons, not_or] at hs
    rw [splitAfter, if_neg (by simpa using Ne.symm hs.1), ih hs.2]

theorem splitAfter_line (hs : sep ∉ s) (t : Bytes) :
    splitAfter sep (s ++ sep :: t) = (s ++ [sep]) :: splitAfter sep t := by
  induction s with
  | nil => rw [nil_append, splitAfter, if_pos (beq_self_eq_true sep), nil_append]
  | cons a s ih =>
    rw [mem_cons, not_or] at hs
    rw [cons_append, splitAfter, if_neg (by simpa using Ne.symm hs.1), ih hs.2]
    rfl

theorem split_ne_nil (sep : UInt8) (p : Bytes) : split sep p ≠ [] := by
  cases p with
  | nil => simp [split]
  | cons a p =>
    rw [split]
    split_ifs with hsep
    · exact cons_ne_nil _ _
    · split <;> exact cons_ne_nil _ _

theorem split_append (sep : UInt8) (p q : Bytes) : split sep (p ++ sep :: q) = split sep p ++ split sep q := by
  induction p with
  | nil => simp [split]
  | cons a p ih =>
    rw [cons_append, split, split]
    split_ifs with hsep
    · rw [ih, cons_append]
    · rw [ih]
      cases hsplit : split sep p with
      | nil => exact absurd hsplit (split_ne_nil sep p)
      | cons piece pieces => rfl

theorem split_self {p : Bytes} (hp : sep ∉ p) : split sep p = [p] := by
  induction p with
  | nil => rfl
  | cons a p ih =>
    rw [mem_cons, not_or] at hp
    rw [split, if_neg (by rw [beq_iff_eq]; exact Ne.symm hp.1), ih hp.2]

theorem sep_not_mem_of_mem_split {p part : Bytes} (hpart : part ∈ split sep p) : sep ∉ part := by
  induction p generalizing part with
  | nil =>
    rw [split, mem_singleton] at hpart
    rw [hpart]
    exact not_mem_nil
  | cons a p ih =>
    rw [split] at hpart
    split_ifs at hpart with hsep
    · rcases mem_cons.1 hpart with rfl | hrest
      · exact not_mem_nil
      · exact ih hrest
    · rw [beq_iff_eq] at hsep
      cases hsplit : split sep p with
      | nil => exact absurd hsplit (split_ne_nil sep p)
      | cons piece pieces =>
        rw [hsplit] at hpart ih
        dsimp only at hpart
        rcases mem_cons.1 hpart with rfl | hrest
        · rw [mem_cons, not_or]
          exact ⟨Ne.symm hsep, ih mem_cons_self⟩
        · exact ih (mem_cons_of_mem _ hrest)

theorem subset_of_mem_split {piece : Bytes} (hpiece : piece ∈ split sep s) : piece ⊆ s := by
  induction s generalizing piece with
  | nil =>
    rw [split, mem_singleton] at hpiece
    rw [hpiece]
    exact nil_subset _
  | cons a s ih =>
    rw [split] at hpiece
    split_ifs at hpiece
    · rcases mem_cons.1 hpiece with rfl | hrest
      · exact nil_subset _
      · exact subset_cons_of_subset a (ih hrest)
    · cases hsplit : split sep s with
      | nil => exact absurd hsplit (split_ne_nil sep s)
      | cons first pieces =>
        rw [hsplit] at hpiece ih
        dsimp only at hpiece
        rcases mem_cons.1 hpiece with rfl | hrest
        · exact cons_subset_cons a (ih mem_cons_self)
        · exact subset_cons_of_subset a (ih (mem_cons_of_mem _ hrest))

theorem split_append_plain {ext : Bytes} (hext : sep ∉ ext) (p : Bytes) :
    split sep (p ++ ext) = (split sep p).dropLast ++ [(split sep p).getLast?.getD [] ++ ext] := by
  induction p with
  | nil =>
    rw [nil_append, split_self hext]
    rfl
  | cons a p ih =>
    rw [cons_append, split, split, ih]
    cases hsplit : split sep p with
    | nil => exact absurd hsplit (split_ne_nil sep p)
    | cons piece pieces =>
      split_ifs
      · rw [dropLast_cons_cons, getLast?_cons_cons]
        rfl
      · cases pieces with
        | nil | cons => rfl

theorem intercalate_split (sep : UInt8) (text s : Bytes) :
    text.intercalate (split sep s) = s.flatMap fun b => if b = sep then text else [b] := by
  induction s with
  | nil => rfl
  | cons b s ih =>
    rw [split]
    cases hsplit : split sep s with
    | nil => exact absurd hsplit (split_ne_nil sep s)
    | cons piece pieces =>
      rw [hsplit] at ih
      rw [flatMap_cons, ← ih]
      by_cases hb : b = sep
      · rw [if_pos hb, if_pos (beq_iff_eq.2 hb), intercalate_cons_cons, nil_append]
      · rw [if_neg hb, if_neg (mt beq_iff_eq.1 hb)]
        cases pieces with
        | nil => rw [intercalate_singleton, intercalate_singleton, singleton_append]
        | cons next pieces =>
          rw [intercalate_cons_cons, intercalate_cons_cons]
          rfl

theorem intercalate_split_self (sep : UInt8) (s : Bytes) : [sep].intercalate (split sep s) = s := by
  rw [intercalate_split]
  refine (flatMap_congr ?_).trans (flatMap_singleton' s)
  intro b _
  split_ifs with hb
  · rw [hb]
  · rfl

theorem decimal_ne_nil (n : Nat) : decimal n ≠ [] := by
  rw [decimal, ne_eq, map_eq_nil_iff]
  exact Nat.toDigits_ne_nil

theorem mem_decimal {n : Nat} {b : UInt8} (hb : b ∈ decimal n) : 0x30 ≤ b ∧ b ≤ 0x39 := by
  obtain ⟨c, hc, rfl⟩ := List.mem_map.1 hb
  have hdigit := Char.isDigit_iff_toNat.1 (Nat.isDigit_of_mem_toDigits (by decide) (by decide) hc)
  have hzero : '0'.toNat = 48 := rfl
  have hnine : '9'.toNat = 57 := rfl
  rw [hzero, hnine] at hdigit
  rw [UInt8.le_iff_toNat_le, UInt8.le_iff_toNat_le, UInt8.toNat_ofNat']
  simp only [UInt8.reduceToNat]
  omega

theorem decimal_injective : Function.Injective decimal := by
  have hdigits (n : Nat) : (decimal n).map (fun b => Char.ofNat b.toNat) = Nat.toDigits 10 n := by
    rw [decimal, List.map_map]
    refine (map_congr_left (g := id) fun c hc => ?_).trans (List.map_id _)
    have hdigit := Char.isDigit_iff_toNat.1 (Nat.isDigit_of_mem_toDigits (by decide) (by decide) hc)
    have hnine : '9'.toNat = 57 := rfl
    rw [Function.comp_apply, UInt8.toNat_ofNat', Nat.mod_eq_of_lt (by omega), Char.ofNat_toNat]
    rfl
  intro m n heq
  rw [← Nat.ofDigitChars_ten_toDigits (n := m), ← hdigits, heq, hdigits, Nat.ofDigitChars_ten_toDigits]

end Strings
