import BuildkitService.Lib.Ledger
import Mathlib.Data.List.Nodup

/-!
# Maps as lists of pairs

A Go map as the list of its keys with their values, each key once.
-/

namespace Assoc

open List Ledger

variable {κ ν : Type*} [BEq κ] [LawfulBEq κ] {entries : List (κ × ν)} {key other : κ} {value : ν}

theorem lookup_eq_some_iff (hnodup : (entries.map Prod.fst).Nodup) :
    entries.lookup key = some value ↔ (key, value) ∈ entries := by
  induction entries with
  | nil => simp
  | cons e entries ih =>
    obtain ⟨first, held⟩ := e
    obtain ⟨hnew, hrest⟩ := nodup_cons.1 hnodup
    rw [lookup_cons, mem_cons]
    by_cases hfirst : key = first
    · subst hfirst
      rw [beq_self_eq_true]
      constructor
      · intro hheld
        exact .inl (by rw [Option.some.inj hheld])
      · rintro (heq | hmem)
        · rw [(Prod.mk.inj heq).2]
        · exact absurd (List.mem_map.2 ⟨(key, value), hmem, rfl⟩) hnew
    · rw [beq_false_of_ne hfirst, ih hrest]
      constructor
      · exact .inr
      · rintro (heq | hmem)
        · exact absurd (Prod.mk.inj heq).1 hfirst
        · exact hmem

theorem total_key [DecidableEq κ] (w : ν → Nat) (hnodup : (entries.map Prod.fst).Nodup) (key : κ) :
    total (fun e => if e.1 = key then w e.2 else 0) entries = ((entries.lookup key).map w).getD 0 := by
  induction entries with
  | nil => rfl
  | cons e entries ih =>
    obtain ⟨first, held⟩ := e
    obtain ⟨hnew, hrest⟩ := nodup_cons.1 hnodup
    rw [total_cons, lookup_cons]
    by_cases hfirst : first = key
    · subst hfirst
      have hothers : total (fun e => if e.1 = first then w e.2 else 0) entries = 0 := by
        refine total_eq_zero _ ?_
        intro e he
        refine if_neg ?_
        intro heq
        exact hnew (List.mem_map.2 ⟨e, he, heq⟩)
      rw [hothers, if_pos rfl, beq_self_eq_true]
      rfl
    · rw [if_neg hfirst, beq_false_of_ne (Ne.symm hfirst), ih hrest, Nat.zero_add]

/-! ### Writing -/

def put (key : κ) (value : ν) (entries : List (κ × ν)) : List (κ × ν) :=
  (key, value) :: entries.filter fun e => e.1 != key

theorem lookup_filter_ne (hne : other ≠ key) : (entries.filter fun e => e.1 != key).lookup other = entries.lookup other := by
  induction entries with
  | nil => rfl
  | cons e entries ih =>
    obtain ⟨first, held⟩ := e
    by_cases hfirst : first = key
    · subst hfirst
      rw [filter_cons_of_neg (by simp), ih, lookup_cons, beq_false_of_ne hne]
    · rw [filter_cons_of_pos (by simpa using hfirst), lookup_cons, lookup_cons, ih]

theorem lookup_put : (put key value entries).lookup other = if other == key then some value else entries.lookup other := by
  rw [put, lookup_cons]
  by_cases hother : other = key
  · rw [beq_iff_eq.2 hother]
    rfl
  · rw [beq_false_of_ne hother]
    exact lookup_filter_ne hother

theorem nodup_put (hnodup : (entries.map Prod.fst).Nodup) : ((put key value entries).map Prod.fst).Nodup := by
  refine nodup_cons.2 ⟨?_, (filter_sublist.map Prod.fst).nodup hnodup⟩
  intro hmem
  obtain ⟨e, he, hkey⟩ := List.mem_map.1 hmem
  exact bne_iff_ne.1 (mem_filter.1 he).2 hkey

theorem countP_put (p : ν → Bool) (hnodup : (entries.map Prod.fst).Nodup) (key : κ) (value : ν) :
    (put key value entries).countP (p ·.2) + ((entries.lookup key).any p).toNat =
      entries.countP (p ·.2) + (p value).toNat := by
  have hrest : (entries.filter fun e => e.1 != key).countP (p ·.2) + ((entries.lookup key).any p).toNat =
      entries.countP (p ·.2) := by
    induction entries with
    | nil => rfl
    | cons e entries ih =>
      obtain ⟨first, held⟩ := e
      obtain ⟨hnew, hnodup⟩ := nodup_cons.1 hnodup
      rw [lookup_cons, countP_cons]
      by_cases hfirst : first = key
      · subst hfirst
        have hkept : entries.filter (fun e => e.1 != first) = entries := by
          refine filter_eq_self.2 fun e he => bne_iff_ne.2 ?_
          rintro rfl
          exact hnew (List.mem_map.2 ⟨e, he, rfl⟩)
        rw [filter_cons_of_neg (by simp), hkept, beq_self_eq_true]
        cases hheld : p held <;> simp [hheld]
      · rw [filter_cons_of_pos (by simpa using hfirst), countP_cons, beq_false_of_ne (Ne.symm hfirst), ← ih hnodup]
        exact Nat.add_right_comm _ _ _
  rw [put, countP_cons, Nat.add_right_comm, hrest]
  cases p value <;> rfl

theorem countP_congr {entries' : List (κ × ν)} (p : ν → Bool) (hnodup : (entries.map Prod.fst).Nodup)
    (hnodup' : (entries'.map Prod.fst).Nodup)
    (hsame : ∀ key value, p value = true → (entries'.lookup key = some value ↔ entries.lookup key = some value)) :
    entries'.countP (p ·.2) = entries.countP (p ·.2) := by
  rw [countP_eq_length_filter, countP_eq_length_filter]
  refine Perm.length_eq ?_
  refine (perm_ext_iff_of_nodup (hnodup'.of_map _ |>.filter _) (hnodup.of_map _ |>.filter _)).2 ?_
  rintro ⟨key, value⟩
  rw [mem_filter, mem_filter, ← lookup_eq_some_iff hnodup, ← lookup_eq_some_iff hnodup']
  exact and_congr_left fun hvalue => hsame key value hvalue

def putAll (writes entries : List (κ × ν)) : List (κ × ν) :=
  writes.foldl (fun entries write => put write.1 write.2 entries) entries

theorem lookup_putAll (writes : List (κ × ν)) :
    (putAll writes entries).lookup key = (writes.reverse.lookup key).or (entries.lookup key) := by
  induction writes generalizing entries with
  | nil => rfl
  | cons write writes ih =>
    show (putAll writes (put write.1 write.2 entries)).lookup key = _
    rw [ih, lookup_put, reverse_cons, lookup_append, Option.or_assoc, lookup_cons]
    cases key == write.1 with
    | true | false => rfl

theorem nodup_putAll (writes : List (κ × ν)) (hnodup : (entries.map Prod.fst).Nodup) :
    ((putAll writes entries).map Prod.fst).Nodup := by
  induction writes generalizing entries with
  | nil => exact hnodup
  | cons write writes ih => exact ih (nodup_put hnodup)

theorem mem_of_lookup (hlookup : entries.lookup key = some value) : (key, value) ∈ entries := by
  obtain ⟨front, back, rfl, _⟩ := List.lookup_eq_some_iff.1 hlookup
  exact mem_append_right _ mem_cons_self

theorem lookup_eq_of_mem_iff {entries' : List (κ × ν)}
    (hone : ∀ v v', (key, v) ∈ entries → (key, v') ∈ entries → v = v')
    (hsame : ∀ v, (key, v) ∈ entries' ↔ (key, v) ∈ entries) : entries'.lookup key = entries.lookup key := by
  cases hlookup : entries.lookup key with
  | some v =>
    have hmem := (hsame v).2 (mem_of_lookup hlookup)
    cases hlookup' : entries'.lookup key with
    | some v' => rw [hone v v' (mem_of_lookup hlookup) ((hsame v').1 (mem_of_lookup hlookup'))]
    | none => exact absurd (lookup_eq_none_iff.1 hlookup' _ hmem) (by simp)
  | none =>
    refine lookup_eq_none_iff.2 ?_
    intro e he
    rw [bne_iff_ne]
    rintro rfl
    exact absurd (lookup_eq_none_iff.1 hlookup _ ((hsame e.2).1 he)) (by simp)

end Assoc
