import Mathlib.Data.List.Basic

/-!
# Programs that call operations

A program is a tree: it has returned, or it calls an operation and goes on with the answer.
-/

inductive Prog (Op : Type) (Res : Op → Type) (α : Type) where
  | done (a : α)
  | call (o : Op) (next : Res o → Prog Op Res α)

namespace Prog

variable {Op : Type} {Res : Op → Type} {α β : Type} {p : Prog Op Res α} {Q : α → Prop} {a : α}

def bind : Prog Op Res α → (α → Prog Op Res β) → Prog Op Res β
  | .done a, f => f a
  | .call o next, f => .call o fun r => bind (next r) f

instance : Monad (Prog Op Res) where
  pure := .done
  bind := bind

def op (o : Op) : Prog Op Res (Res o) := .call o .done

theorem bind_assoc {γ : Type} (p : Prog Op Res α) (f : α → Prog Op Res β) (g : β → Prog Op Res γ) :
    p >>= f >>= g = p >>= fun a => f a >>= g := by
  show bind (bind p f) g = bind p fun a => bind (f a) g
  induction p with
  | done a => rfl
  | call o next ih => exact congrArg (call o) (funext ih)

/-! ### Running -/

variable {σ : Type*} {sem : σ → (o : Op) → Res o → σ → Prop}

def run (answer : (o : Op) → σ → Res o × σ) : Prog Op Res α → σ → α × σ
  | .done a, s => (a, s)
  | .call o next, s => run answer (next (answer o s).1) (answer o s).2

variable {answer : (o : Op) → σ → Res o × σ}

@[simp] theorem run_pure (a : α) (s : σ) : run answer (Pure.pure a : Prog Op Res α) s = (a, s) := rfl

theorem run_bind (p : Prog Op Res α) (f : α → Prog Op Res β) (s : σ) :
    run answer (p >>= f) s = run answer (f (run answer p s).1) (run answer p s).2 := by
  show run answer (bind p f) s = _
  induction p generalizing s with
  | done a => rfl
  | call o next ih => exact ih _ _

@[simp] theorem run_op (o : Op) (s : σ) : run answer (op o : Prog Op Res (Res o)) s = answer o s := rfl

theorem not_ok {ε : Type} {err : ε} {P : Prop} (hok : Except.error err = .ok a) : P := by
  cases hok

/-! ### Which operations -/

def Only (P : Op → Prop) : Prog Op Res α → Prop
  | .done _ => True
  | .call o next => P o ∧ ∀ r, Only P (next r)

variable {P : Op → Prop}

theorem only_pure (a : α) : Only P (Pure.pure a : Prog Op Res α) := trivial

theorem only_of_forall (hall : ∀ o, P o) (p : Prog Op Res α) : Only P p := by
  induction p with
  | done a => exact trivial
  | call o next ih => exact ⟨hall o, ih⟩

theorem Only.mono {P' : Op → Prop} (hp : Only P p) (himp : ∀ o, P o → P' o) : Only P' p := by
  induction p with
  | done a => exact trivial
  | call o next ih => exact ⟨himp o hp.1, fun r => ih r (hp.2 r)⟩

theorem only_op {o : Op} (ho : P o) : Only P (op o : Prog Op Res (Res o)) := ⟨ho, fun _ => trivial⟩

theorem Only.bind {f : α → Prog Op Res β} (hp : Only P p) (hf : ∀ a, Only P (f a)) : Only P (p >>= f) := by
  show Only P (Prog.bind p f)
  induction p with
  | done a => exact hf a
  | call o next ih => exact ⟨hp.1, fun r => ih r (hp.2 r)⟩

/-! ### Which results -/

def Returns (Q : α → Prop) : Prog Op Res α → Prop
  | .done a => Q a
  | .call _ next => ∀ r, Returns Q (next r)

theorem returns_pure (ha : Q a) : Returns Q (Pure.pure a : Prog Op Res α) := ha

theorem Returns.bind {Q' : β → Prop} {f : α → Prog Op Res β} (hp : Returns Q p)
    (hf : ∀ a, Q a → Returns Q' (f a)) : Returns Q' (p >>= f) := by
  show Returns Q' (Prog.bind p f)
  induction p with
  | done a => exact hf a hp
  | call o next ih => exact fun r => ih r (hp r)

theorem Returns.bind_congr {f g : α → Prog Op Res β} (hp : Returns Q p) (hfg : ∀ a, Q a → f a = g a) :
    p >>= f = p >>= g := by
  show Prog.bind p f = Prog.bind p g
  induction p with
  | done a => exact hfg a hp
  | call o next ih => exact congrArg (call o) (funext fun r => ih r (hp r))

/-! ### Executions -/

inductive Exec (sem : σ → (o : Op) → Res o → σ → Prop) : Prog Op Res α → σ → α → σ → Prop
  | done (a : α) (s : σ) : Exec sem (.done a) s a s
  | call {o : Op} {next : Res o → Prog Op Res α} {s s' s'' : σ} {r : Res o} {a : α} (hop : sem s o r s')
      (hrest : Exec sem (next r) s' a s'') : Exec sem (.call o next) s a s''

def enabledRun (answer : (o : Op) → σ → Res o × σ) (enabled : Op → σ → Bool) : Prog Op Res α → σ → Bool
  | .done _, _ => true
  | .call o next, s => enabled o s && enabledRun answer enabled (next (answer o s).1) (answer o s).2

theorem exec_run {enabled : Op → σ → Bool}
    (hanswer : ∀ o s, enabled o s = true → sem s o (answer o s).1 (answer o s).2) (p : Prog Op Res α) (s : σ)
    (hrun : enabledRun answer enabled p s = true) : Exec sem p s (run answer p s).1 (run answer p s).2 := by
  induction p generalizing s with
  | done a => exact .done a s
  | call o next ih =>
    rw [enabledRun, Bool.and_eq_true] at hrun
    exact .call (hanswer o s hrun.1) (ih _ _ hrun.2)

theorem Exec.map {τ : Type*} {sem' : τ → (o : Op) → Res o → τ → Prop} (view : σ → τ)
    (hview : ∀ s o r s', sem s o r s' → sem' (view s) o r (view s')) {s s' : σ} (hexec : Exec sem p s a s') :
    Exec sem' p (view s) a (view s') := by
  induction hexec with
  | done a s => exact .done a (view s)
  | call hop _ ih => exact .call (hview _ _ _ _ hop) ih

/-! ### Verification -/

structure Rules (Op : Type) (Res : Op → Type) (σ : Type*) where
  sem : σ → (o : Op) → Res o → σ → Prop
  guard : σ → Op → Prop
  during : σ → Prop

def Holds (d : Rules Op Res σ) : Prog Op Res α → σ → (α → σ → Prop) → Prop
  | .done a, s, post => d.during s ∧ post a s
  | .call o next, s, post => d.during s ∧ d.guard s o ∧ ∀ r s', d.sem s o r s' → Holds d (next r) s' post

variable {d : Rules Op Res σ} {post : α → σ → Prop} {s : σ}

theorem Holds.now (hp : Holds d p s post) : d.during s := by
  cases p with
  | done | call => exact hp.1

theorem holds_pure (hnow : d.during s) (hpost : post a s) : Holds d (Pure.pure a : Prog Op Res α) s post :=
  ⟨hnow, hpost⟩

theorem Holds.bind {f : α → Prog Op Res β} {last : β → σ → Prop} (hp : Holds d p s post)
    (hf : ∀ a s', post a s' → d.during s' → Holds d (f a) s' last) : Holds d (p >>= f) s last := by
  show Holds d (Prog.bind p f) s last
  induction p generalizing s with
  | done a => exact hf a s hp.2 hp.1
  | call o next ih => exact ⟨hp.1, hp.2.1, fun r s' hsem => ih r (hp.2.2 r s' hsem)⟩

theorem holds_op_bind {o : Op} {f : Res o → Prog Op Res β} {last : β → σ → Prop} (hnow : d.during s)
    (hguard : d.guard s o) (hnext : ∀ r s', d.sem s o r s' → Holds d (f r) s' last) :
    Holds d (op o >>= f) s last := ⟨hnow, hguard, hnext⟩

theorem Holds.mono {weaker : α → σ → Prop} (hp : Holds d p s post)
    (himp : ∀ a s', d.during s' → post a s' → weaker a s') : Holds d p s weaker := by
  induction p generalizing s with
  | done a => exact ⟨hp.1, himp a s hp.1 hp.2⟩
  | call o next ih => exact ⟨hp.1, hp.2.1, fun r s' hsem => ih r (hp.2.2 r s' hsem)⟩

theorem Only.holds {I : σ → Prop} (honly : Only P p) (hduring : ∀ s, I s → d.during s)
    (hguard : ∀ s o, I s → P o → d.guard s o) (hstep : ∀ s o r s', I s → P o → d.sem s o r s' → I s')
    (hs : I s) : Holds d p s fun _ s' => I s' := by
  induction p generalizing s with
  | done a => exact ⟨hduring s hs, hs⟩
  | call o next ih =>
    refine ⟨hduring s hs, hguard s o hs honly.1, ?_⟩
    intro r s' hsem
    exact ih r (honly.2 r) (hstep s o r s' hs honly.1 hsem)

theorem Only.carry {I : σ → Prop} (honly : Only P p) (hstep : ∀ s o r s', I s → P o → d.sem s o r s' → I s')
    (hs : I s) (hp : Holds d p s post) : Holds d p s fun a s' => post a s' ∧ I s' := by
  induction p generalizing s with
  | done a => exact ⟨hp.1, hp.2, hs⟩
  | call o next ih =>
    refine ⟨hp.1, hp.2.1, ?_⟩
    intro r s' hsem
    exact ih r (honly.2 r) (hstep s o r s' hs honly.1 hsem) (hp.2.2 r s' hsem)

theorem Holds.exec {τ : Type*} {sem : τ → (o : Op) → Res o → τ → Prop} {R : τ → σ → Prop}
    (hsim : ∀ t s o r t', R t s → d.guard s o → sem t o r t' → ∃ s', d.sem s o r s' ∧ R t' s') {t t' : τ}
    (hexec : Exec sem p t a t') (hR : R t s) (hp : Holds d p s post) :
    ∃ s', R t' s' ∧ d.during s' ∧ post a s' := by
  induction hexec generalizing s with
  | done a t => exact ⟨s, hR, hp.1, hp.2⟩
  | call hop _ ih =>
    obtain ⟨s', hsem, hR'⟩ := hsim _ _ _ _ _ hR hp.2.1 hop
    exact ih hR' (hp.2.2 _ s' hsem)

/-! ### Failing -/

section Attempt

variable {ε : Type}

def attempt (p : Prog Op Res (Except ε α)) (f : α → Prog Op Res (Except ε β)) : Prog Op Res (Except ε β) :=
  p >>= fun r => match r with
    | .ok a => f a
    | .error e => Pure.pure (.error e)

@[simp] theorem attempt_ok (a : α) (f : α → Prog Op Res (Except ε β)) : attempt (Pure.pure (.ok a)) f = f a := rfl

@[simp] theorem attempt_error (e : ε) (f : α → Prog Op Res (Except ε β)) :
    attempt (Pure.pure (.error e)) f = Pure.pure (.error e) := rfl

theorem bind_attempt {γ : Type} (p : Prog Op Res α) (f : α → Prog Op Res (Except ε β)) (g : β → Prog Op Res (Except ε γ)) :
    attempt (p >>= f) g = p >>= fun a => attempt (f a) g := bind_assoc p f _

theorem attempt_assoc {γ : Type} (p : Prog Op Res (Except ε α)) (f : α → Prog Op Res (Except ε β))
    (g : β → Prog Op Res (Except ε γ)) : attempt (attempt p f) g = attempt p fun a => attempt (f a) g := by
  refine (bind_attempt p _ g).trans (congrArg (p >>= ·) ?_)
  funext r
  cases r with
  | ok | error => rfl

theorem Returns.attempt_congr {p : Prog Op Res (Except ε α)} {f g : α → Prog Op Res (Except ε β)}
    (hp : Returns (fun r => ∀ a, r = .ok a → Q a) p) (hfg : ∀ a, Q a → f a = g a) :
    Prog.attempt p f = Prog.attempt p g := by
  refine hp.bind_congr ?_
  intro r hr
  cases r with
  | ok a => exact hfg a (hr a rfl)
  | error e => rfl

theorem Returns.attempt {Q' : Except ε β → Prop} {p : Prog Op Res (Except ε α)} {f : α → Prog Op Res (Except ε β)}
    (hok : ∀ a, Returns Q' (f a)) (herror : ∀ e, Q' (.error e)) : Returns Q' (Prog.attempt p f) := by
  have hp : Returns (fun _ => True) p := by
    induction p with
    | done a => exact trivial
    | call o next ih => exact ih
  refine hp.bind ?_
  intro r _
  cases r with
  | ok a => exact hok a
  | error e => exact herror e

theorem Only.attempt {p : Prog Op Res (Except ε α)} {f : α → Prog Op Res (Except ε β)} (hp : Only P p)
    (hf : ∀ a, Only P (f a)) : Only P (attempt p f) := by
  refine hp.bind ?_
  intro r
  cases r with
  | ok a => exact hf a
  | error e => exact only_pure _

theorem Holds.attempt {p : Prog Op Res (Except ε α)} {f : α → Prog Op Res (Except ε β)}
    {post : Except ε α → σ → Prop} {last : Except ε β → σ → Prop} (hp : Holds d p s post)
    (hok : ∀ a s', post (.ok a) s' → d.during s' → Holds d (f a) s' last)
    (herror : ∀ e s', post (.error e) s' → d.during s' → last (.error e) s') :
    Holds d (attempt p f) s last := by
  refine hp.bind ?_
  intro r s' hpost hnow
  cases r with
  | ok a => exact hok a s' hpost hnow
  | error e => exact holds_pure hnow (herror e s' hpost hnow)

theorem run_attempt (p : Prog Op Res (Except ε α)) (f : α → Prog Op Res (Except ε β)) (s : σ) :
    run answer (attempt p f) s = match run answer p s with
      | (.ok a, s') => run answer (f a) s'
      | (.error e, s') => (.error e, s') := by
  rw [attempt, run_bind]
  rcases run answer p s with ⟨r, s'⟩
  cases r <;> rfl

end Attempt

/-! ### Serving -/

def serve {Op' : Type} {Res' : Op' → Type} (server : (o : Op) → Prog Op' Res' (Res o)) : Prog Op Res α → Prog Op' Res' α
  | .done a => .done a
  | .call o next => server o >>= fun r => serve server (next r)

theorem only_serve {Op' : Type} {Res' : Op' → Type} {P' : Op' → Prop} {server : (o : Op) → Prog Op' Res' (Res o)}
    (hserver : ∀ o, Only P' (server o)) (p : Prog Op Res α) : Only P' (serve server p) := by
  induction p with
  | done a => exact trivial
  | call o next ih => exact (hserver o).bind ih

/-! ### Lifting -/

section Lift

variable {Op' : Type} {Res' : Op' → Type} (f : Op → Op') (back : ∀ o, Res' (f o) → Res o)

def lift : Prog Op Res α → Prog Op' Res' α
  | .done a => .done a
  | .call o next => .call (f o) fun r => lift (next (back o r))

theorem lift_bind (p : Prog Op Res α) (g : α → Prog Op Res β) :
    Prog.lift f back (p >>= g) = Prog.lift f back p >>= fun a => Prog.lift f back (g a) := by
  show Prog.lift f back (Prog.bind p g) = Prog.bind (Prog.lift f back p) fun a => Prog.lift f back (g a)
  induction p with
  | done a => rfl
  | call o next ih => exact congrArg (call (f o)) (funext fun r => ih (back o r))

theorem lift_attempt {ε : Type} (p : Prog Op Res (Except ε α)) (g : α → Prog Op Res (Except ε β)) :
    Prog.lift f back (attempt p g) = attempt (Prog.lift f back p) fun a => Prog.lift f back (g a) := by
  refine (lift_bind f back p _).trans (congrArg (Prog.lift f back p >>= ·) ?_)
  funext r
  cases r with
  | ok | error => rfl

theorem returns_lift (hp : Returns Q p) : Returns Q (Prog.lift f back p) := by
  induction p with
  | done a => exact hp
  | call o next ih => exact fun r => ih (back o r) (hp (back o r))

theorem only_lift {P' : Op' → Prop} (hp : Only (fun o => P' (f o)) p) : Only P' (Prog.lift f back p) := by
  induction p with
  | done a => exact trivial
  | call o next ih => exact ⟨hp.1, fun r => ih (back o r) (hp.2 (back o r))⟩

theorem Holds.lift {τ : Type*} {d' : Rules Op' Res' τ} {view : τ → σ} {frame : τ → Prop}
    (hduring : ∀ t, frame t → d.during (view t) → d'.during t)
    (hguard : ∀ t o, frame t → d.guard (view t) o → d'.guard t (f o))
    (hsem : ∀ t o r t', frame t → d'.sem t (f o) r t' → d.sem (view t) o (back o r) (view t') ∧ frame t')
    {t : τ} (hframe : frame t) (hp : Holds d p (view t) post) :
    Holds d' (Prog.lift f back p) t fun a t' => post a (view t') ∧ frame t' := by
  induction p generalizing t with
  | done a => exact ⟨hduring t hframe hp.1, hp.2, hframe⟩
  | call o next ih =>
    refine ⟨hduring t hframe hp.1, hguard t o hframe hp.2.1, ?_⟩
    intro r t' hstep
    obtain ⟨hlocal, hframe'⟩ := hsem t o r t' hframe hstep
    exact ih (back o r) hframe' (hp.2.2 _ _ hlocal)

end Lift

end Prog
