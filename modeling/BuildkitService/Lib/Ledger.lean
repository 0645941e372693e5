import Mathlib.Data.List.Basic

/-!
# Totals over a list of cells

A list of cells holds one cell per thread, and a weight says how much of a shared resource a cell
accounts for.
-/

namespace Ledger

open List

variable {α : Type*} (w : α → Nat) {cells : List α} {v : α → Nat}

def total : List α → Nat
  | [] => 0
  | c :: cells => w c + total cells

@[simp] theorem total_nil : total w [] = 0 := rfl

@[simp] theorem total_cons (c : α) (cells : List α) : total w (c :: cells) = w c + total w cells := rfl

theorem total_append (left right : List α) : total w (left ++ right) = total w left + total w right := by
  induction left with
  | nil => simp
  | cons c left ih =>
    rw [cons_append, total_cons, total_cons, ih]
    omega

theorem total_map {β : Type*} (f : β → α) (cells : List β) :
    total w (cells.map f) = total (fun c => w (f c)) cells := by
  induction cells with
  | nil => rfl
  | cons c cells ih => rw [map_cons, total_cons, total_cons, ih]

@[simp] theorem total_one (cells : List α) : total (fun _ => 1) cells = cells.length := by
  induction cells with
  | nil => rfl
  | cons c cells ih =>
    rw [total_cons, ih, length_cons]
    omega

theorem total_set {i : Nat} {old new : α} (hold : cells[i]? = some old) :
    total w (cells.set i new) + w old = total w cells + w new := by
  induction cells generalizing i with
  | nil => simp at hold
  | cons c cells ih =>
    cases i with
    | zero =>
      simp only [getElem?_cons_zero, Option.some.injEq] at hold
      subst hold
      simp only [set_cons_zero, total_cons]
      omega
    | succ i =>
      have htail := ih (by simpa using hold)
      simp only [set_cons_succ, total_cons]
      omega

theorem balance_set {i tokens tokens' : Nat} {old new : α} (hold : cells[i]? = some old)
    (hbefore : tokens = total w cells) (hmove : tokens' + w old = tokens + w new) :
    tokens' = total w (cells.set i new) := by
  have hset : total w (cells.set i new) + w old = total w cells + w new := total_set w hold
  omega

theorem total_le_total (hle : ∀ c ∈ cells, w c ≤ v c) : total w cells ≤ total v cells := by
  induction cells with
  | nil => simp
  | cons c cells ih =>
    have hhead := hle c (by simp)
    have htail := ih fun d hd => hle d (by simp [hd])
    simp only [total_cons]
    omega

theorem total_congr (heq : ∀ c ∈ cells, w c = v c) : total w cells = total v cells :=
  Nat.le_antisymm (total_le_total w fun c hc => Nat.le_of_eq (heq c hc))
    (total_le_total v fun c hc => Nat.le_of_eq (heq c hc).symm)

theorem total_lt_total {c : α} (hle : ∀ d ∈ cells, w d ≤ v d) (hmem : c ∈ cells) (hlt : w c < v c) :
    total w cells < total v cells := by
  induction cells with
  | nil => simp at hmem
  | cons d cells ih =>
    have hhead := hle d (by simp)
    have htail : total w cells ≤ total v cells := total_le_total w fun e he => hle e (by simp [he])
    simp only [total_cons]
    rcases mem_cons.1 hmem with rfl | hin
    · omega
    · have hrest := ih (fun e he => hle e (by simp [he])) hin
      omega

theorem total_eq_zero (hzero : ∀ c ∈ cells, w c = 0) : total w cells = 0 := by
  induction cells with
  | nil => simp
  | cons c cells ih =>
    have hhead := hzero c (by simp)
    have htail := ih fun d hd => hzero d (by simp [hd])
    simp only [total_cons]
    omega

theorem le_total {c : α} (hmem : c ∈ cells) : w c ≤ total w cells := by
  induction cells with
  | nil => simp at hmem
  | cons d cells ih =>
    simp only [total_cons]
    rcases mem_cons.1 hmem with rfl | htail
    · omega
    · have := ih htail
      omega

theorem total_filter (p : α → Bool) (cells : List α) :
    total w (cells.filter p) + total w (cells.filter fun c => !p c) = total w cells := by
  induction cells with
  | nil => rfl
  | cons c cells ih =>
    rw [filter_cons, filter_cons, total_cons, ← ih]
    cases p c with
    | true =>
      simp only [Bool.not_true, if_true, Bool.false_eq_true, if_false, total_cons]
      omega
    | false =>
      simp only [Bool.not_false, if_true, Bool.false_eq_true, if_false, total_cons]
      omega

theorem total_add (v : α → Nat) (cells : List α) :
    total (fun c => w c + v c) cells = total w cells + total v cells := by
  induction cells with
  | nil => rfl
  | cons c cells ih =>
    simp only [total_cons, ih]
    omega

theorem total_le_keys {κ : Type*} [DecidableEq κ] (key : α → κ) {keys : List κ}
    (hkeys : ∀ c ∈ cells, w c ≠ 0 → key c ∈ keys) :
    total w cells ≤ total (fun k => total (fun c => if key c = k then w c else 0) cells) keys := by
  induction cells with
  | nil => exact Nat.zero_le _
  | cons c cells ih =>
    have htail := ih fun d hd => hkeys d (mem_cons_of_mem _ hd)
    have hhead : w c ≤ total (fun k => if key c = k then w c else 0) keys := by
      by_cases hzero : w c = 0
      · omega
      · have hpart := le_total (fun k => if key c = k then w c else 0) (hkeys c mem_cons_self hzero)
        simpa using hpart
    simp only [total_cons, total_add]
    omega

theorem total_keys {κ : Type*} [DecidableEq κ] [BEq κ] [LawfulBEq κ] (key : α → κ) (keys : List κ) (cells : List α) :
    total (fun k => total (fun c => if key c = k then w c else 0) cells) keys =
      total (fun c => keys.count (key c) * w c) cells := by
  induction keys with
  | nil =>
    refine (total_eq_zero _ ?_).symm
    intro c _
    rw [count_nil, Nat.zero_mul]
  | cons k keys ih =>
    rw [total_cons, ih, ← total_add]
    refine total_congr _ ?_
    intro c _
    rw [count_cons, Nat.add_mul]
    by_cases hkey : key c = k
    · rw [if_pos hkey, if_pos (beq_iff_eq.2 hkey.symm), Nat.one_mul, Nat.add_comm]
    · rw [if_neg hkey, if_neg (fun heq => hkey (beq_iff_eq.1 heq).symm), Nat.zero_mul, Nat.add_comm]

theorem total_le_of_subset {more : List α} (hnodup : cells.Nodup) (hsub : cells ⊆ more) :
    total w cells ≤ total w more := by
  induction cells generalizing more with
  | nil => exact Nat.zero_le _
  | cons c cells ih =>
    obtain ⟨hnew, hrest⟩ := nodup_cons.1 hnodup
    obtain ⟨front, back, rfl⟩ := append_of_mem (hsub mem_cons_self)
    have hothers : cells ⊆ front ++ back := by
      intro d hd
      rcases mem_append.1 (hsub (mem_cons_of_mem c hd)) with hfront | hback
      · exact mem_append_left _ hfront
      · rcases mem_cons.1 hback with rfl | hback
        · exact absurd hd hnew
        · exact mem_append_right _ hback
    have hlater := ih hrest hothers
    rw [total_append] at hlater
    rw [total_append, total_cons, total_cons]
    omega

end Ledger
