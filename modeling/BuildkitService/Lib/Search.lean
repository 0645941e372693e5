import Mathlib.Data.Nat.Notation

/-!
# Binary search

The loop of `sort.Search`: for a predicate that stays true once it is true, the least index below `n`
at which it holds, or `n`.
-/

namespace Search

variable {f : Nat → Bool} {n i j : Nat}

def between (f : Nat → Bool) : Nat → Nat → Nat → Nat
  | 0, i, _ => i
  | fuel + 1, i, j =>
      if i < j then
        if f ((i + j) / 2) then between f fuel i ((i + j) / 2)
        else between f fuel ((i + j) / 2 + 1) j
      else i

def search (n : Nat) (f : Nat → Bool) : Nat := between f n 0 n

structure Turns (f : Nat → Bool) (n i : Nat) : Prop where
  le : i ≤ n
  below : ∀ k < i, f k = false
  above : ∀ k, i ≤ k → k < n → f k = true

section

variable (hmono : ∀ a b, a ≤ b → b < n → f a = true → f b = true)

include hmono

theorem turns_between {fuel : Nat}
    (hfuel : j - i ≤ fuel) (hij : i ≤ j) (hjn : j ≤ n) (hbelow : ∀ k < i, f k = false)
    (habove : ∀ k, j ≤ k → k < n → f k = true) : Turns f n (between f fuel i j) := by
  induction fuel generalizing i j with
  | zero => exact ⟨by rw [between]; omega, hbelow, fun k hk => habove k (by rw [between] at hk; omega)⟩
  | succ fuel ih =>
    rw [between]
    by_cases hlt : i < j
    · rw [if_pos hlt]
      cases hmid : f ((i + j) / 2) with
      | true =>
        rw [if_pos rfl]
        refine ih (by omega) (by omega) (by omega) hbelow ?_
        intro k hk hkn
        exact hmono _ k hk hkn hmid
      | false =>
        rw [if_neg Bool.false_ne_true]
        refine ih (by omega) (by omega) hjn ?_ habove
        intro k hk
        cases hearly : f k with
        | false => rfl
        | true =>
          have hlate := hmono k ((i + j) / 2) (by omega) (by omega) hearly
          rw [hmid] at hlate
          exact absurd hlate Bool.false_ne_true
    · rw [if_neg hlt]
      exact ⟨by omega, hbelow, fun k hk => habove k (by omega)⟩

theorem turns_search : Turns f n (search n f) :=
  turns_between hmono (Nat.sub_le n 0) (Nat.zero_le n) (Nat.le_refl n) (fun k hk => absurd hk (Nat.not_lt_zero k))
    (fun k hk hkn => absurd hkn (by omega))

end

end Search
