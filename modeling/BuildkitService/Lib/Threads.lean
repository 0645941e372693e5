import Mathlib.Data.List.Basic

/-!
# Lists of threads

A machine that starts threads keeps them in a list and names them by their index.
-/

namespace Threads

open List

variable {α : Type*} {k : Nat} {l : List α} {x y : α}

theorem getElem?_snoc (h : (l ++ [x])[k]? = some y) : l[k]? = some y ∨ (k = l.length ∧ y = x) := by
  by_cases hlt : k < l.length
  · rw [getElem?_append_left hlt] at h
    exact .inl h
  · rw [getElem?_append_right (by omega)] at h
    obtain ⟨hk, hy⟩ := List.getElem?_eq_some_iff.1 h
    rw [length_singleton] at hk
    refine .inr ⟨by omega, ?_⟩
    have hzero : k - l.length = 0 := by omega
    simpa [hzero] using hy.symm

theorem getElem?_set_cases {j : Nat} (h : (l.set k x)[j]? = some y) :
    (j = k ∧ y = x) ∨ (j ≠ k ∧ l[j]? = some y) := by
  by_cases hkj : k = j
  · subst hkj
    obtain ⟨hlt, hy⟩ := List.getElem?_eq_some_iff.1 h
    rw [getElem_set_self] at hy
    exact .inl ⟨rfl, hy.symm⟩
  · rw [getElem?_set_ne hkj] at h
    exact .inr ⟨fun hjk => hkj hjk.symm, h⟩

theorem mem_set_self (hk : l[k]? = some x) : y ∈ l.set k y :=
  mem_of_getElem? (getElem?_set_self (List.getElem?_eq_some_iff.1 hk).1)

theorem eq_or_mem_set {v : α} (hk : l[k]? = some x) (hv : v ∈ l) : v = x ∨ v ∈ l.set k y := by
  obtain ⟨j, hj⟩ := getElem?_of_mem hv
  by_cases hkj : k = j
  · subst hkj
    rw [hk] at hj
    exact .inl (Option.some.inj hj).symm
  · exact .inr (mem_of_getElem? (by rw [getElem?_set_ne hkj, hj]))

end Threads
