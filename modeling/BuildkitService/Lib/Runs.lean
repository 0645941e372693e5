import Mathlib.Data.List.Basic

/-!
# Runs of a labelled machine

A machine is a partial step function `step : σ → α → Option σ`: in a state, an action either is
refused or leads to one next state.
-/

namespace Runs

open Option

variable {σ α : Type*} (step : σ → α → Option σ) {as : List α} {s t : σ} {Inv : σ → Prop} {ok : σ → α → Prop}

def exec : σ → List α → Option σ
  | s, [] => some s
  | s, a :: as => (step s a).bind fun s' => exec s' as

def Along (ok : σ → α → Prop) : σ → List α → Prop
  | _, [] => True
  | s, a :: as => ok s a ∧ ∀ s', step s a = some s' → Along ok s' as

instance decidableAlong {ok : σ → α → Prop} [∀ s a, Decidable (ok s a)] :
    ∀ (s : σ) (as : List α), Decidable (Along step ok s as)
  | _, [] => isTrue trivial
  | s, a :: as =>
      match hstep : step s a with
      | none => decidable_of_iff (ok s a) (by simp [Along, hstep])
      | some s' =>
          have : Decidable (Along step ok s' as) := decidableAlong s' as
          decidable_of_iff (ok s a ∧ Along step ok s' as) (by simp [Along, hstep])

@[simp] theorem exec_nil (s : σ) : exec step s [] = some s := rfl

theorem exec_cons_eq_some {a : α} :
    exec step s (a :: as) = some t ↔ ∃ s', step s a = some s' ∧ exec step s' as = some t := by
  simp only [exec, bind_eq_some_iff]

theorem exec_append {u : σ} {bs : List α} (hfirst : exec step s as = some t)
    (hsecond : exec step t bs = some u) : exec step s (as ++ bs) = some u := by
  induction as generalizing s with
  | nil =>
    simp only [exec_nil, Option.some.injEq] at hfirst
    subst hfirst
    exact hsecond
  | cons a as ih =>
    obtain ⟨s', hstep, hrest⟩ := (exec_cons_eq_some step).1 hfirst
    exact (exec_cons_eq_some step).2 ⟨s', hstep, ih hrest⟩

theorem exec_invariant_along (hkeep : ∀ s a s', Inv s → ok s a → step s a = some s' → Inv s') (hinit : Inv s)
    (halong : Along step ok s as) (hexec : exec step s as = some t) : Inv t := by
  induction as generalizing s with
  | nil =>
    simp only [exec_nil, Option.some.injEq] at hexec
    exact hexec ▸ hinit
  | cons a as ih =>
    obtain ⟨s', hstep, hrest⟩ := (exec_cons_eq_some step).1 hexec
    exact ih (hkeep s a s' hinit halong.1 hstep) (halong.2 s' hstep) hrest

theorem along_of_forall (hok : ∀ a ∈ as, ∀ s, ok s a) (s : σ) : Along step ok s as := by
  induction as generalizing s with
  | nil => trivial
  | cons a as ih => exact ⟨hok a (by simp) s, fun s' _ => ih (fun b hb => hok b (by simp [hb])) s'⟩

theorem along_and {ok' : σ → α → Prop} (hfirst : Along step ok s as) (hsecond : Along step ok' s as) :
    Along step (fun s a => ok s a ∧ ok' s a) s as := by
  induction as generalizing s with
  | nil => trivial
  | cons a as ih =>
    exact ⟨⟨hfirst.1, hsecond.1⟩, fun s' hstep => ih (hfirst.2 s' hstep) (hsecond.2 s' hstep)⟩

theorem along_true (s : σ) (as : List α) : Along step (fun _ _ => True) s as :=
  along_of_forall step (fun _ _ _ => trivial) s

theorem exec_invariant (hkeep : ∀ s a s', Inv s → step s a = some s' → Inv s') (hinit : Inv s)
    (hexec : exec step s as = some t) : Inv t :=
  exec_invariant_along step (fun s a s' hinv _ hstep => hkeep s a s' hinv hstep) hinit
    (along_true step s as) hexec

theorem exec_relates {R : σ → σ → Prop} (hrefl : ∀ s, R s s) (htrans : ∀ {s t u}, R s t → R t u → R s u)
    (hkeep : ∀ s a s', Inv s → step s a = some s' → Inv s')
    (hrel : ∀ s a s', Inv s → step s a = some s' → R s s') (hinit : Inv s) (hexec : exec step s as = some t) :
    R s t := by
  induction as generalizing s with
  | nil =>
    simp only [exec_nil, Option.some.injEq] at hexec
    exact hexec ▸ hrefl s
  | cons a as ih =>
    obtain ⟨s', hstep, hrest⟩ := (exec_cons_eq_some step).1 hexec
    exact htrans (hrel s a s' hinit hstep) (ih (hkeep s a s' hinit hstep) hrest)

def tally (count : σ → α → Nat) : σ → List α → Nat
  | _, [] => 0
  | s, a :: as => count s a + ((step s a).map fun s' => tally count s' as).getD 0

theorem tally_add_le {count : σ → α → Nat} {potential : σ → Nat}
    (hkeep : ∀ s a s', Inv s → ok s a → step s a = some s' → Inv s')
    (hpay : ∀ s a s', Inv s → ok s a → step s a = some s' → count s a + potential s ≤ potential s')
    (hinit : Inv s) (halong : Along step ok s as) (hexec : exec step s as = some t) :
    tally step count s as + potential s ≤ potential t := by
  induction as generalizing s with
  | nil =>
    simp only [exec_nil, Option.some.injEq] at hexec
    subst hexec
    exact Nat.le_of_eq (Nat.zero_add _)
  | cons a as ih =>
    obtain ⟨s', hstep, hrest⟩ := (exec_cons_eq_some step).1 hexec
    have hlater := ih (hkeep s a s' hinit halong.1 hstep) (halong.2 s' hstep) hrest
    have hpaid := hpay s a s' hinit halong.1 hstep
    rw [tally, hstep, map_some, getD_some]
    omega

section

variable (hkeep : ∀ s a s', Inv s → step s a = some s' → Inv s')

include hkeep

theorem tally_add_le_start {count : σ → α → Nat} {potential : σ → Nat}
    (hpay : ∀ s a s', Inv s → step s a = some s' → count s a + potential s' ≤ potential s) (hinit : Inv s)
    (hexec : exec step s as = some t) : tally step count s as + potential t ≤ potential s := by
  induction as generalizing s with
  | nil =>
    simp only [exec_nil, Option.some.injEq] at hexec
    subst hexec
    exact Nat.le_of_eq (Nat.zero_add _)
  | cons a as ih =>
    obtain ⟨s', hstep, hrest⟩ := (exec_cons_eq_some step).1 hexec
    have hlater := ih (hkeep s a s' hinit hstep) hrest
    have hpaid := hpay s a s' hinit hstep
    rw [tally, hstep, map_some, getD_some]
    omega

theorem tally_le_tally {count credit : σ → α → Nat} {potential : σ → Nat}
    (hpay : ∀ s a s', Inv s → step s a = some s' → count s a + potential s' ≤ credit s a + potential s)
    (hinit : Inv s) (hexec : exec step s as = some t) :
    tally step count s as + potential t ≤ tally step credit s as + potential s := by
  induction as generalizing s with
  | nil =>
    simp only [exec_nil, Option.some.injEq] at hexec
    subst hexec
    exact Nat.le_refl _
  | cons a as ih =>
    obtain ⟨s', hstep, hrest⟩ := (exec_cons_eq_some step).1 hexec
    have hlater := ih (hkeep s a s' hinit hstep) hrest
    have hpaid := hpay s a s' hinit hstep
    simp only [tally, hstep, map_some, getD_some]
    omega

end

def states : σ → List α → List σ
  | s, [] => [s]
  | s, a :: as => s :: ((step s a).map fun s' => states s' as).getD []

theorem start_mem_states (s : σ) (as : List α) : s ∈ states step s as := by
  cases as with
  | nil => exact List.mem_singleton_self s
  | cons a as => exact List.mem_cons_self

theorem end_mem_states (hexec : exec step s as = some t) : t ∈ states step s as := by
  induction as generalizing s with
  | nil =>
    simp only [exec_nil, Option.some.injEq] at hexec
    exact hexec ▸ List.mem_singleton_self s
  | cons a as ih =>
    obtain ⟨s', hstep, hrest⟩ := (exec_cons_eq_some step).1 hexec
    rw [states, hstep, map_some, getD_some]
    exact List.mem_cons_of_mem _ (ih hrest)

section

variable (hkeep : ∀ s a s', Inv s → step s a = some s' → Inv s')

include hkeep

theorem exec_breach {Bad : σ → Prop} {allowed : α → Prop}
    (hbreach : ∀ s a s', Inv s → ¬ ok s a → step s a = some s' → Bad s')
    (hstay : ∀ s a s', Inv s → allowed a → Bad s → step s a = some s' → Bad s') (hinit : Inv s)
    (hallowed : ∀ a ∈ as, allowed a) (hexec : exec step s as = some t)
    (hbroken : Bad s ∨ ¬ Along step ok s as) : Bad t := by
  induction as generalizing s with
  | nil =>
    simp only [exec_nil, Option.some.injEq] at hexec
    subst hexec
    rcases hbroken with hbad | hbroken
    · exact hbad
    · exact absurd trivial hbroken
  | cons a as ih =>
    obtain ⟨s', hstep, hrest⟩ := (exec_cons_eq_some step).1 hexec
    refine ih (hkeep s a s' hinit hstep) (fun b hb => hallowed b (List.mem_cons_of_mem _ hb)) hrest ?_
    rcases hbroken with hbad | hbroken
    · exact .inl (hstay s a s' hinit (hallowed a List.mem_cons_self) hbad hstep)
    · by_cases hok : ok s a
      · refine .inr ?_
        intro halong
        refine hbroken ⟨hok, ?_⟩
        intro s'' hstep'
        rwa [← Option.some.inj (hstep.symm.trans hstep')]
      · exact .inl (hbreach s a s' hinit hok hstep)

theorem exec_simulates {τ β : Type*} {step' : τ → β → Option τ} {view : σ → τ}
    (hsim : ∀ s a s', Inv s → step s a = some s' → ∃ bs, exec step' (view s) bs = some (view s'))
    (hinit : Inv s) (hexec : exec step s as = some t) : ∃ bs, exec step' (view s) bs = some (view t) :=
  exec_relates step (R := fun s t => ∃ bs, exec step' (view s) bs = some (view t))
    (fun _ => ⟨[], rfl⟩) (fun ⟨bs, hbs⟩ ⟨cs, hcs⟩ => ⟨bs ++ cs, exec_append step' hbs hcs⟩) hkeep hsim
    hinit hexec

end

end Runs
