import Mathlib.Order.RelClasses

/-!
# The first greatest element of a list

A scan keeps the element with the greatest score so far and replaces it only by one with a greater
score.
-/

namespace Argmax

open List

section Scan

variable {α σ : Type*} [LT σ] [DecidableLT σ] (score : α → σ)

def scan (a : α) : List α → α
  | [] => a
  | b :: l => scan (if score a < score b then b else a) l

end Scan

section Leader

variable {α σ κ : Type*} [LT σ] [LT κ] (score : α → σ) (key : α → κ)

def Leads (a b : α) : Prop := score b < score a ∨ (score b = score a ∧ key a < key b)

structure IsLeader (l : List α) (a : α) : Prop where
  mem : a ∈ l
  leads : ∀ b ∈ l, b ≠ a → Leads score key a b

variable {score key} {l l' : List α} {a b : α}

theorem IsLeader.subset (hleader : IsLeader score key l' a) (hsub : l ⊆ l') (hmem : a ∈ l) :
    IsLeader score key l a where
  mem := hmem
  leads := by
    intro b hb hne
    exact hleader.leads b (hsub hb) hne

variable [IsStrictTotalOrder σ (· < ·)]

theorem IsLeader.snoc [DecidableLT σ] (ha : IsLeader score key l a) (hkeys : ∀ c ∈ l, key c < key b) :
    IsLeader score key (l ++ [b]) (if score a < score b then b else a) := by
  split_ifs with hgreater
  · refine ⟨mem_append_right _ (mem_singleton.2 rfl), ?_⟩
    intro c hc hne
    rcases mem_append.1 hc with hc | hc
    · -- The new element has a greater score than the old leader, and so than all others.
      left
      by_cases hold : c = a
      · rw [hold]
        exact hgreater
      · rcases ha.leads c hc hold with hscore | ⟨hscore, _⟩
        · exact trans_of (· < ·) hscore hgreater
        · rw [hscore]
          exact hgreater
    · exact absurd (mem_singleton.1 hc) hne
  · refine ⟨mem_append_left _ ha.mem, ?_⟩
    intro c hc hne
    rcases mem_append.1 hc with hc | hc
    · exact ha.leads c hc hne
    · obtain rfl := mem_singleton.1 hc
      rcases trichotomous_of (· < ·) (score c) (score a) with hless | heq | hmore
      · exact .inl hless
      · exact .inr ⟨heq, hkeys a ha.mem⟩
      · exact absurd hmore hgreater

theorem IsLeader.scan [DecidableLT σ] (ha : IsLeader score key l a)
    (hkeys : (l ++ l').Pairwise fun c d => key c < key d) :
    IsLeader score key (l ++ l') (Argmax.scan score a l') := by
  induction l' generalizing l a with
  | nil =>
    rw [append_nil]
    exact ha
  | cons b l' ih =>
    have hbefore : ∀ c ∈ l, key c < key b := by
      intro c hc
      exact (pairwise_append.1 hkeys).2.2 c hc b mem_cons_self
    rw [← singleton_append, ← append_assoc] at hkeys ⊢
    exact ih (ha.snoc hbefore) hkeys

theorem scan_isLeader [DecidableLT σ] (hkeys : (a :: l).Pairwise fun c d => key c < key d) :
    IsLeader score key (a :: l) (Argmax.scan score a l) := by
  have halone : IsLeader score key [a] a := by
    refine ⟨mem_singleton.2 rfl, ?_⟩
    intro b hb hne
    exact absurd (mem_singleton.1 hb) hne
  exact halone.scan hkeys

variable [IsStrictTotalOrder κ (· < ·)]

theorem Leads.asymm (hab : Leads score key a b) : ¬ Leads score key b a := by
  intro hba
  rcases hab with hscore | ⟨hscore, hkey⟩
  · rcases hba with hback | ⟨hback, _⟩
    · exact asymm_of (· < ·) hscore hback
    · rw [hback] at hscore
      exact irrefl_of (· < ·) _ hscore
  · rcases hba with hback | ⟨_, hback⟩
    · rw [hscore] at hback
      exact irrefl_of (· < ·) _ hback
    · exact asymm_of (· < ·) hkey hback

theorem IsLeader.unique (ha : IsLeader score key l a) (hb : IsLeader score key l b) : a = b := by
  by_contra hne
  have hab : Leads score key a b := ha.leads b hb.mem (Ne.symm hne)
  have hba : Leads score key b a := hb.leads a ha.mem hne
  exact hab.asymm hba

end Leader

end Argmax
