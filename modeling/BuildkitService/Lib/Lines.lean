import Mathlib.Data.List.Basic

/-!
# Whole lines

A text of whole lines is cut at a position, and what is left of the line at the position is thrown
away with its terminator.
-/

namespace Lines

open List

variable {α : Type*} {stop : α} {lines : List (List α)} {line : List α} {p n k : Nat}

def IsLine (stop : α) (line : List α) : Prop := ∃ body, line = body ++ [stop] ∧ stop ∉ body

theorem IsLine.length_pos (hline : IsLine stop line) : 0 < line.length := by
  obtain ⟨body, rfl, _⟩ := hline
  simp

theorem IsLine.drop (hline : IsLine stop line) (hp : p < line.length) : IsLine stop (line.drop p) := by
  obtain ⟨body, rfl, hbody⟩ := hline
  rw [length_append, length_singleton] at hp
  refine ⟨body.drop p, drop_append_of_le_length (by omega), ?_⟩
  exact fun hmem => hbody (mem_of_mem_drop hmem)

theorem IsLine.getElem?_eq_stop (hline : IsLine stop line) {q : Nat} :
    (line)[q]? = some stop ↔ q + 1 = line.length := by
  obtain ⟨body, rfl, hbody⟩ := hline
  rw [length_append, length_singleton]
  constructor
  · intro hget
    have hlt := (List.getElem?_eq_some_iff.1 hget).1
    rw [length_append, length_singleton] at hlt
    by_contra hne
    rw [getElem?_append_left (by omega)] at hget
    exact hbody (mem_of_getElem? hget)
  · intro hlast
    obtain rfl : q = body.length := by omega
    exact getElem?_concat_length

inductive IsFile (stop : α) : List (List α) → Prop
  | nil : IsFile stop []
  | last {line : List α} : line ≠ [] → stop ∉ line → IsFile stop [line]
  | cons {line : List α} {lines : List (List α)} : IsLine stop line → IsFile stop lines → IsFile stop (line :: lines)

theorem IsFile.tail (hfile : IsFile stop (line :: lines)) : IsFile stop lines := by
  cases hfile with
  | last => exact .nil
  | cons _ htail => exact htail

theorem IsFile.head (hfile : IsFile stop (line :: lines)) :
    IsLine stop line ∨ lines = [] ∧ line ≠ [] ∧ stop ∉ line := by
  cases hfile with
  | last hne hline => exact .inr ⟨rfl, hne, hline⟩
  | cons hline _ => exact .inl hline

theorem IsFile.drop (hfile : IsFile stop lines) (n : Nat) : IsFile stop (lines.drop n) := by
  induction n generalizing lines with
  | zero => exact hfile
  | succ n ih =>
    cases lines with
    | nil => exact hfile
    | cons line lines => exact ih hfile.tail

theorem IsFile.append {front back back' : List (List α)} (hfile : IsFile stop (front ++ back))
    (hback : IsFile stop back') (hend : back = [] → back' = []) : IsFile stop (front ++ back') := by
  induction front with
  | nil => exact hback
  | cons line front ih =>
    have hrest := ih hfile.tail
    rcases hfile.head with hline | ⟨hnil, hne, hline⟩
    · exact .cons hline hrest
    · obtain ⟨rfl, rfl⟩ := append_eq_nil_iff.1 hnil
      rw [hend rfl]
      exact .last hne hline

/-! ### Cutting -/

section Cutting

variable [DecidableEq α]

def readLine (stop : α) : List α → Option (List α)
  | [] => none
  | a :: s => if a = stop then some [a] else (readLine stop s).map (a :: ·)

theorem readLine_append {body s : List α} (hbody : stop ∉ body) :
    readLine stop (body ++ stop :: s) = some (body ++ [stop]) := by
  induction body with
  | nil => exact if_pos rfl
  | cons a body ih =>
    rw [mem_cons, not_or] at hbody
    rw [cons_append, readLine, if_neg (Ne.symm hbody.1), ih hbody.2]
    rfl

theorem readLine_line (hline : IsLine stop line) (s : List α) : readLine stop (line ++ s) = some line := by
  obtain ⟨body, rfl, hbody⟩ := hline
  rw [append_assoc]
  exact readLine_append hbody

def pieces (stop : α) : List α → List (List α) × List α
  | [] => ([], [])
  | a :: s =>
      let (lines, rest) := pieces stop s
      if a = stop then ([a] :: lines, rest)
      else match lines with
        | [] => ([], a :: rest)
        | line :: lines => ((a :: line) :: lines, rest)

theorem pieces_line (hline : IsLine stop line) (s : List α) :
    pieces stop (line ++ s) = (line :: (pieces stop s).1, (pieces stop s).2) := by
  obtain ⟨body, rfl, hbody⟩ := hline
  induction body with
  | nil => simp only [nil_append, singleton_append, pieces, if_pos]
  | cons a body ih =>
    rw [mem_cons, not_or] at hbody
    rw [cons_append, cons_append, pieces, ih hbody.2]
    simp only [if_neg (Ne.symm hbody.1)]

theorem pieces_flatten (hlines : ∀ line ∈ lines, IsLine stop line) : pieces stop lines.flatten = (lines, []) := by
  induction lines with
  | nil => rfl
  | cons line lines ih =>
    obtain ⟨hline, hrest⟩ := forall_mem_cons.1 hlines
    rw [flatten_cons, pieces_line hline, ih hrest]

end Cutting

def reached (p : Nat) : List (List α) → Nat
  | [] => 0
  | line :: lines => if p < line.length then 1 else reached (p - line.length) lines + 1

theorem readLine_flatten [DecidableEq α] (hlines : ∀ line ∈ lines, IsLine stop line)
    (hp : p < lines.flatten.length) : ∃ discarded, readLine stop (lines.flatten.drop p) = some discarded ∧
      lines.flatten.drop (p + discarded.length) = (lines.drop (reached p lines)).flatten := by
  induction lines generalizing p with
  | nil => simp at hp
  | cons line lines ih =>
    rw [forall_mem_cons] at hlines
    rw [flatten_cons, length_append] at hp
    rw [flatten_cons, reached]
    by_cases hhead : p < line.length
    · refine ⟨line.drop p, ?_, ?_⟩
      · rw [drop_append_of_le_length (Nat.le_of_lt hhead)]
        exact readLine_line (hlines.1.drop hhead) _
      · have hend : p + (line.drop p).length = line.length := by
          rw [length_drop]
          omega
        rw [if_pos hhead, hend, drop_left]
        rfl
    · obtain ⟨discarded, hread, hrest⟩ := ih hlines.2 (p := p - line.length) (by omega)
      have hshift : ∀ n, (line ++ lines.flatten).drop (line.length + n) = lines.flatten.drop n :=
        fun n => drop_length_add_append ..
      refine ⟨discarded, ?_, ?_⟩
      · rw [← hread, ← hshift]
        congr 2
        omega
      · rw [if_neg hhead, drop_succ_cons, ← hrest, ← hshift]
        congr 1
        omega

theorem length_drop_reached_lt (hp : p < lines.flatten.length) :
    (lines.drop (reached p lines)).flatten.length + p < lines.flatten.length := by
  induction lines generalizing p with
  | nil => simp at hp
  | cons line lines ih =>
    rw [flatten_cons, length_append] at hp ⊢
    rw [reached]
    by_cases hhead : p < line.length
    · rw [if_pos hhead, drop_succ_cons, drop_zero]
      omega
    · rw [if_neg hhead, drop_succ_cons]
      have htail := ih (p := p - line.length) (by omega)
      omega

theorem le_length_drop {i : Nat} (hi : i < reached p lines) :
    lines.flatten.length ≤ (lines.drop i).flatten.length + p := by
  induction lines generalizing p i with
  | nil => simp [reached] at hi
  | cons line lines ih =>
    rw [reached] at hi
    rw [flatten_cons, length_append]
    cases i with
    | zero =>
      rw [drop_zero, flatten_cons, length_append]
      omega
    | succ i =>
      rw [drop_succ_cons]
      by_cases hhead : p < line.length
      · rw [if_pos hhead] at hi
        omega
      · rw [if_neg hhead] at hi
        have htail := ih (p := p - line.length) (i := i) (by omega)
        omega

theorem length_flatten_drop_le {i j : Nat} (hij : i ≤ j) :
    (lines.drop j).flatten.length ≤ (lines.drop i).flatten.length := by
  obtain ⟨d, rfl⟩ := Nat.exists_eq_add_of_le hij
  rw [← drop_drop]
  generalize lines.drop i = rest
  calc (rest.drop d).flatten.length
      ≤ (rest.take d).flatten.length + (rest.drop d).flatten.length := Nat.le_add_left _ _
    _ = rest.flatten.length := by rw [← length_append, ← flatten_append, take_append_drop]

/-! ### The longest end -/

structure Longest (n : Nat) (lines : List (List α)) (k : Nat) : Prop where
  fits : (lines.drop k).flatten.length ≤ n
  least : ∀ j < k, n < (lines.drop j).flatten.length

def Splits (n : Nat) (lines : List (List α)) : Prop := ∃ i, (lines.drop i).flatten.length = n

theorem longest_reached (hpos : 0 < n) (hlong : n < lines.flatten.length) (hsplits : ¬ Splits n lines) :
    Longest n lines (reached (lines.flatten.length - n) lines) := by
  constructor
  · have hcut : lines.flatten.length - n < lines.flatten.length := by omega
    have hlt := length_drop_reached_lt hcut
    omega
  · intro j hj
    have hle := le_length_drop hj
    have hne : (lines.drop j).flatten.length ≠ n := fun heq => hsplits ⟨j, heq⟩
    omega

theorem not_longest_of_splits (hsplits : Splits n lines) (hlt : (lines.drop k).flatten.length < n) :
    ¬ Longest n lines k := by
  rintro ⟨_, hleast⟩
  obtain ⟨i, hi⟩ := hsplits
  have hik : i < k := by
    by_contra hle
    have hmono : (lines.drop i).flatten.length ≤ (lines.drop k).flatten.length :=
      length_flatten_drop_le (Nat.le_of_not_lt hle)
    omega
  have hmore := hleast i hik
  omega

theorem Longest.of_drop {r : Nat} (hmore : ∀ j < k, n < (lines.drop j).flatten.length)
    (hlongest : Longest n (lines.drop k) r) : Longest n lines (k + r) := by
  constructor
  · rw [← drop_drop]
    exact hlongest.fits
  · intro j hj
    by_cases hfirst : j < k
    · exact hmore j hfirst
    · have hrest := hlongest.least (j - k) (by omega)
      rw [drop_drop] at hrest
      rwa [Nat.add_sub_cancel' (Nat.le_of_not_lt hfirst)] at hrest

theorem Splits.of_drop (hsplits : Splits n (lines.drop k)) : Splits n lines := by
  obtain ⟨i, hi⟩ := hsplits
  refine ⟨k + i, ?_⟩
  rwa [drop_drop] at hi

theorem getElem?_flatten_eq_stop (hlines : ∀ line ∈ lines, IsLine stop line) {q : Nat} :
    lines.flatten[q]? = some stop ↔ ∃ i, (lines.take i).flatten.length = q + 1 := by
  induction lines generalizing q with
  | nil => simp
  | cons line lines ih =>
    rw [forall_mem_cons] at hlines
    rw [flatten_cons]
    by_cases hhead : q < line.length
    · rw [getElem?_append_left hhead, hlines.1.getElem?_eq_stop]
      constructor
      · intro hlast
        refine ⟨1, ?_⟩
        rw [take_succ_cons, take_zero, flatten_cons, flatten_nil, append_nil, hlast]
      · rintro ⟨i, hi⟩
        cases i with
        | zero => simp at hi
        | succ i =>
          rw [take_succ_cons, flatten_cons, length_append] at hi
          omega
    · rw [getElem?_append_right (Nat.le_of_not_lt hhead), ih hlines.2]
      constructor
      · rintro ⟨i, hi⟩
        refine ⟨i + 1, ?_⟩
        rw [take_succ_cons, flatten_cons, length_append]
        omega
      · rintro ⟨i, hi⟩
        cases i with
        | zero => simp at hi
        | succ i =>
          refine ⟨i, ?_⟩
          rw [take_succ_cons, flatten_cons, length_append] at hi
          omega

theorem splits_iff (hlines : ∀ line ∈ lines, IsLine stop line) (hlong : n < lines.flatten.length) :
    Splits n lines ↔ lines.flatten[lines.flatten.length - n - 1]? = some stop := by
  rw [getElem?_flatten_eq_stop hlines]
  refine exists_congr fun i => ?_
  have hparts : (lines.take i).flatten.length + (lines.drop i).flatten.length = lines.flatten.length := by
    rw [← length_append, ← flatten_append, take_append_drop]
  omega

end Lines
