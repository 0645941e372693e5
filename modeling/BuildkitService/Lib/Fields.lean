import Mathlib.Data.List.Basic

/-!
# Terminated fields

Fields that are written one after the other, each with a terminator behind it, can be told apart as long
as the terminator does not occur inside a field.
-/

namespace Fields

open List

variable {α : Type*}

def terminated (stop : α) (fields : List (List α)) : List α := fields.flatMap (· ++ [stop])

theorem terminated_cons (stop : α) (field : List α) (fields : List (List α)) :
    terminated stop (field :: fields) = field ++ stop :: terminated stop fields := by
  show field ++ [stop] ++ terminated stop fields = _
  rw [append_assoc, singleton_append]

theorem terminated_flatMap {ρ : Type*} (stop : α) (write : ρ → List (List α)) (records : List ρ) :
    terminated stop (records.flatMap write) = records.flatMap fun record => terminated stop (write record) :=
  flatMap_assoc

theorem append_cons_inj {stop : α} {a b s t : List α} (ha : stop ∉ a) (hb : stop ∉ b)
    (heq : a ++ stop :: s = b ++ stop :: t) : a = b ∧ s = t := by
  induction a generalizing b with
  | nil =>
    cases b with
    | nil => exact ⟨rfl, (List.cons.inj heq).2⟩
    | cons x b =>
      refine absurd ?_ hb
      rw [(List.cons.inj heq).1]
      exact mem_cons_self
  | cons x a ih =>
    cases b with
    | nil =>
      refine absurd ?_ ha
      rw [← (List.cons.inj heq).1]
      exact mem_cons_self
    | cons y b =>
      obtain ⟨hhead, htail⟩ := List.cons.inj heq
      obtain ⟨hab, hst⟩ := ih (fun h => ha (mem_cons_of_mem _ h)) (fun h => hb (mem_cons_of_mem _ h)) htail
      exact ⟨by rw [hhead, hab], hst⟩

theorem terminated_injective {stop : α} {fields others : List (List α)} (hfields : ∀ field ∈ fields, stop ∉ field)
    (hothers : ∀ field ∈ others, stop ∉ field) (heq : terminated stop fields = terminated stop others) :
    fields = others := by
  induction fields generalizing others with
  | nil =>
    cases others with
    | nil => rfl
    | cons other others =>
      rw [terminated_cons] at heq
      exact absurd heq.symm (by simp [terminated])
  | cons field fields ih =>
    cases others with
    | nil =>
      rw [terminated_cons] at heq
      exact absurd heq (by simp [terminated])
    | cons other others =>
      rw [terminated_cons, terminated_cons] at heq
      obtain ⟨hfirst, hrest⟩ := append_cons_inj (hfields field mem_cons_self)
        (hothers other mem_cons_self) heq
      rw [hfirst, ih (fun f hf => hfields f (mem_cons_of_mem _ hf))
        (fun f hf => hothers f (mem_cons_of_mem _ hf)) hrest]

theorem flatMap_injective {ρ φ : Type*} {write : ρ → List φ} (hne : ∀ r, write r ≠ [])
    (hwrite : ∀ r r' s s', write r ++ s = write r' ++ s' → r = r' ∧ s = s') {records others : List ρ}
    (heq : records.flatMap write = others.flatMap write) : records = others := by
  induction records generalizing others with
  | nil =>
    cases others with
    | nil => rfl
    | cons other others =>
      rw [flatMap_nil, flatMap_cons] at heq
      exact absurd (append_eq_nil_iff.1 heq.symm).1 (hne other)
  | cons record records ih =>
    cases others with
    | nil =>
      rw [flatMap_nil, flatMap_cons] at heq
      exact absurd (append_eq_nil_iff.1 heq).1 (hne record)
    | cons other others =>
      rw [flatMap_cons, flatMap_cons] at heq
      obtain ⟨hrecord, hrest⟩ := hwrite _ _ _ _ heq
      rw [hrecord, ih hrest]

end Fields
