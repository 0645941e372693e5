import BuildkitService.BatchDaemon.OneShot

/-!
# Whose handles they are

`buildCancel` and `buildDone` are set with the state `running` when a post is admitted, and they are
cleared at the end of a build, some time after it has published its result.
-/

namespace BuildkitService.BatchDaemon

open Threads List Runs

variable {s s' t : State} {k j i : Nat} {b b' : Build} {a : Action} {acts : List Action}

/-! ### Steps -/

def BuildPc.unclosed : BuildPc → Bool
  | .cancelFailure _ | .closeFailure _ | .removeDir | .removeZip | .clear | .closeDone => true
  | pc => pc.pending

def Build.unclosed (b : Build) : Nat := if b.pc.unclosed then 1 else 0

def Build.Terminal (b : Build) : Prop := ∀ state, b.pc = .publish state → state.status ≠ .running

structure Share (s s' : State) (k : Nat) (b b' : Build) : Prop where
  builds : s'.builds = s.builds.set k b'
  cancels : s'.cancels = s.cancels
  handles : (s'.buildCancel = s.buildCancel ∧ s'.buildDone = s.buildDone) ∨
    (b.pc.pending = false ∧ s.buildDone = some k ∧ s'.buildCancel = none ∧ s'.buildDone = none)
  state : (s'.build = s.build ∧ b'.pc.pending = b.pc.pending) ∨
    (b.pc.pending = true ∧ b'.pc.pending = false ∧ s'.build.status ≠ .running)
  closes : b'.closes + b'.unclosed = b.closes + b.unclosed
  canceled : b.canceled = true → b'.canceled = true
  terminal : b'.Terminal

theorem clearBuildExecution_handles (s : State) (k : Nat) :
    ((s.clearBuildExecution k).buildCancel = s.buildCancel ∧ (s.clearBuildExecution k).buildDone = s.buildDone) ∨
    (s.buildDone = some k ∧ (s.clearBuildExecution k).buildCancel = none ∧
      (s.clearBuildExecution k).buildDone = none) := by
  rw [State.clearBuildExecution]
  split_ifs with hown
  · exact .inr ⟨hown, rfl, rfl⟩
  · exact .inl ⟨rfl, rfl⟩

theorem clearBuildExecution_cancels (s : State) (k : Nat) : (s.clearBuildExecution k).cancels = s.cancels := by
  rw [State.clearBuildExecution]
  split_ifs <;> rfl

theorem share_clear {pc : BuildPc} (hpending : b.pc.pending = false) (hpending' : pc.pending = false)
    (hunclosed : pc.unclosed = b.pc.unclosed) :
    Share s ((s.clearBuildExecution k).setBuild k { b with pc := pc }) k b { b with pc := pc } where
  builds := by rw [State.setBuild, (clearBuildExecution_frame s k).1]
  cancels := clearBuildExecution_cancels s k
  handles := (clearBuildExecution_handles s k).imp_right fun hown => ⟨hpending, hown⟩
  state := .inl ⟨(clearBuildExecution_frame s k).2.1, hpending'.trans hpending.symm⟩
  closes := by rw [Build.unclosed, Build.unclosed, hunclosed]
  canceled := id
  terminal := by
    intro state hpc
    rw [show pc = .publish state from hpc] at hpending'
    cases hpending'

theorem share_own (hbuilds : s'.builds = s.builds.set k b') (hcancels : s'.cancels = s.cancels)
    (hhandles : s'.buildCancel = s.buildCancel ∧ s'.buildDone = s.buildDone) (hstate : s'.build = s.build)
    (hpending : b'.pc.pending = b.pc.pending) (hcloses : b'.closes + b'.unclosed = b.closes + b.unclosed)
    (hcanceled : b.canceled = true → b'.canceled = true) (hterminal : b'.Terminal) : Share s s' k b b' :=
  ⟨hbuilds, hcancels, .inl hhandles, .inl ⟨hstate, hpending⟩, hcloses, hcanceled, hterminal⟩

theorem handleBuildPost_share {choice : Choice} (hstep : handleBuildPost s k b choice = some s') :
    ∃ b', Share s s' k b b' := by
  unfold handleBuildPost at hstep
  split at hstep <;> rename_i hpc <;> cases hstep
  case h_12 oneshot =>
    refine ⟨_, share_own rfl rfl ⟨rfl, rfl⟩ rfl ?_ ?_ id ?_⟩
    · cases oneshot <;> simp [hpc, BuildPc.pending]
    · cases oneshot <;> simp [Build.unclosed, hpc, BuildPc.unclosed, BuildPc.pending]
    · cases oneshot <;> simp [Build.Terminal]
  case h_16 failure =>
    refine ⟨_, rfl, rfl, .inl ⟨rfl, rfl⟩, .inr ⟨by rw [hpc]; rfl, rfl, fun h => (by cases h)⟩, ?_, id, fun _ h => (by cases h)⟩
    simp [Build.unclosed, hpc, BuildPc.unclosed, BuildPc.pending]
  case h_17 failure =>
    refine ⟨_, share_own rfl rfl ⟨rfl, rfl⟩ rfl (by rw [hpc]; rfl) ?_ (fun _ => rfl) fun _ h => (by cases h)⟩
    simp [Build.unclosed, hpc, BuildPc.unclosed]
  case h_18 failure =>
    refine ⟨_, share_own rfl rfl ⟨rfl, rfl⟩ rfl (by rw [hpc]; rfl) ?_ id fun _ h => (by cases h)⟩
    simp [Build.unclosed, hpc, BuildPc.unclosed, BuildPc.pending]
  case h_19 failure =>
    refine ⟨_, share_clear (by rw [hpc]; rfl) (by split <;> rfl) ?_⟩
    rw [hpc]
    split <;> rfl
  all_goals
    refine ⟨_, share_own rfl rfl ⟨rfl, rfl⟩ rfl (by rw [hpc]; rfl) ?_ id fun _ h => (by cases h)⟩
    simp [Build.unclosed, hpc, BuildPc.unclosed, BuildPc.pending]

theorem runBuildAsync_share {choice : Choice} (hterminal : b.Terminal)
    (hstep : runBuildAsync s k b choice = some s') : ∃ b', Share s s' k b b' := by
  unfold runBuildAsync at hstep
  split at hstep <;> rename_i hpc <;> cases hstep
  case h_13 state =>
    refine ⟨_, rfl, rfl, .inl ⟨rfl, rfl⟩, .inr ⟨by rw [hpc]; rfl, rfl, hterminal state hpc⟩, ?_, id, nofun⟩
    simp [Build.unclosed, hpc, BuildPc.unclosed, BuildPc.pending]
  case h_18 => exact ⟨_, share_clear (by rw [hpc]; rfl) rfl (by rw [hpc]; rfl)⟩
  case h_19 =>
    refine ⟨_, share_own rfl rfl ⟨rfl, rfl⟩ rfl ?_ ?_ id ?_⟩
    · rw [hpc]
      dsimp only
      split <;> rfl
    · simp only [Build.unclosed, hpc]
      split_ifs <;> simp_all [BuildPc.unclosed, BuildPc.pending]
    · intro state hstate
      dsimp only at hstate
      split at hstate <;> cases hstate
  all_goals
    refine ⟨_, share_own rfl rfl ⟨rfl, rfl⟩ rfl (by simp [hpc, BuildPc.pending]) ?_ id
      (by simp [Build.Terminal, hpc])⟩
    simp [Build.unclosed, hpc, BuildPc.unclosed, BuildPc.pending]

/-! ### The invariant -/

structure Owned (s : State) : Prop where
  running : ∀ (k : Nat) (b : Build), s.builds[k]? = some b → b.pc.pending = true →
    k + 1 = s.builds.length ∧ s.build.status = .running
  owner : s.build.status = .running → ∃ k b, s.builds[k]? = some b ∧ b.pc.pending = true ∧
    s.buildCancel = some k ∧ s.buildDone = some k
  together : s.buildCancel = s.buildDone
  closes : ∀ (k : Nat) (b : Build), s.builds[k]? = some b → b.closes + b.unclosed = 1
  terminal : ∀ (k : Nat) (b : Build), s.builds[k]? = some b → b.Terminal

theorem owned_initial : Owned initial where
  running := by simp [initial]
  owner := nofun
  together := rfl
  closes := by simp [initial]
  terminal := by simp [initial]

theorem Owned.same (howned : Owned s) (hbuilds : s'.builds = s.builds) (hstate : s'.build = s.build)
    (hhandles : s'.buildCancel = s.buildCancel ∧ s'.buildDone = s.buildDone) : Owned s' where
  running := by
    rw [hbuilds, hstate]
    exact howned.running
  owner := by
    rw [hbuilds, hstate, hhandles.1, hhandles.2]
    exact howned.owner
  together := by
    rw [hhandles.1, hhandles.2]
    exact howned.together
  closes := by
    rw [hbuilds]
    exact howned.closes
  terminal := by
    rw [hbuilds]
    exact howned.terminal

theorem owned_share (howned : Owned s) (hbuild : s.builds[k]? = some b) (hshare : Share s s' k b b') :
    Owned s' := by
  have hlast : k < s.builds.length := (List.getElem?_eq_some_iff.1 hbuild).1
  have hcases : ∀ j c, s'.builds[j]? = some c → (j = k ∧ c = b') ∨ (j ≠ k ∧ s.builds[j]? = some c) := by
    intro j c hc
    rw [hshare.builds] at hc
    exact getElem?_set_cases hc
  refine ⟨?_, ?_, ?_, ?_, ?_⟩
  · intro j c hc hpending
    rw [hshare.builds, length_set]
    rcases hcases j c hc with ⟨rfl, rfl⟩ | ⟨hne, hold⟩
    · rcases hshare.state with ⟨hsame, hpc⟩ | ⟨_, hpublished, _⟩
      · rw [hsame]
        exact howned.running _ b hbuild (hpc ▸ hpending)
      · rw [hpublished] at hpending
        cases hpending
    · obtain ⟨hj, hrunning⟩ := howned.running j c hold hpending
      rcases hshare.state with ⟨hsame, _⟩ | ⟨hbefore, _⟩
      · rw [hsame]
        exact ⟨hj, hrunning⟩
      · have hk := (howned.running k b hbuild hbefore).1
        omega
  · intro hrunning
    rcases hshare.state with ⟨hsame, hpc⟩ | ⟨_, _, hterminal⟩
    · rw [hsame] at hrunning
      obtain ⟨j, c, hc, hpending, hcancel, hdone⟩ := howned.owner hrunning
      -- The build that has not published keeps its handles, since another build finds its own gone.
      have hkept : s'.buildCancel = s.buildCancel ∧ s'.buildDone = s.buildDone := by
        rcases hshare.handles with hkept | ⟨hpublished, hown, _⟩
        · exact hkept
        · rw [hdone] at hown
          cases hown
          rw [hbuild] at hc
          cases hc
          rw [hpublished] at hpending
          cases hpending
      rw [hkept.1, hkept.2, hshare.builds]
      by_cases hjk : j = k
      · subst hjk
        rw [hbuild] at hc
        cases hc
        exact ⟨j, b', getElem?_set_self hlast, hpc.trans hpending, hcancel, hdone⟩
      · refine ⟨j, c, ?_, hpending, hcancel, hdone⟩
        rw [getElem?_set_ne (fun h => hjk h.symm)]
        exact hc
    · exact absurd hrunning hterminal
  · rcases hshare.handles with ⟨hcancel, hdone⟩ | ⟨_, _, hcancel, hdone⟩
    · rw [hcancel, hdone, howned.together]
    · rw [hcancel, hdone]
  · intro j c hc
    rcases hcases j c hc with ⟨rfl, rfl⟩ | ⟨_, hold⟩
    · rw [hshare.closes]
      exact howned.closes _ b hbuild
    · exact howned.closes j c hold
  · intro j c hc
    rcases hcases j c hc with ⟨rfl, rfl⟩ | ⟨_, hold⟩
    · exact hshare.terminal
    · exact howned.terminal j c hold

theorem owned_post (howned : Owned s) : Owned s.post := by
  rw [State.post]
  split_ifs with hrunning
  · exact howned.same rfl rfl ⟨rfl, rfl⟩
  · refine ⟨?_, ?_, rfl, ?_, ?_⟩
    · intro k b hbuild hpending
      rcases getElem?_snoc hbuild with hold | ⟨rfl, _⟩
      · exact absurd (howned.running k b hold hpending).2 hrunning
      · exact ⟨by simp, rfl⟩
    · intro _
      exact ⟨s.builds.length, _, getElem?_concat_length, rfl, rfl, rfl⟩
    · intro k b hbuild
      rcases getElem?_snoc hbuild with hold | ⟨_, rfl⟩
      · exact howned.closes k b hold
      · rfl
    · intro k b hbuild
      rcases getElem?_snoc hbuild with hold | ⟨_, rfl⟩
      · exact howned.terminal k b hold
      · intro state hpublish
        cases hpublish

inductive HandleEffect (s : State) : Action → State → Prop
  | post : HandleEffect s .post s.post
  | handler {k : Nat} {b : Build} {choice : Choice} {s' : State} (hbuild : s.builds[k]? = some b)
      (hstep : handleBuildPost s k b choice = some s') : HandleEffect s (.handler k choice) s'
  | async {k : Nat} {b : Build} {choice : Choice} {s' : State} (hbuild : s.builds[k]? = some b)
      (hstep : runBuildAsync s k b choice = some s') : HandleEffect s (.async k choice) s'
  | request : HandleEffect s .cancel s.cancelRequest
  | cancels {i k : Nat} {b : Build} (hrequest : s.cancels[i]? = some (.cancel k)) (hbuild : s.builds[k]? = some b) :
      HandleEffect s (.cancelGo i) { s.setBuild k { b with canceled := true } with
        cancels := s.cancels.set i (.responded ⟨202, running⟩) }
  | other {a : Action} {s' : State} (hbuilds : s'.builds = s.builds) (hstate : s'.build = s.build)
      (hhandles : s'.buildCancel = s.buildCancel ∧ s'.buildDone = s.buildDone) (hcancels : s'.cancels = s.cancels) :
      HandleEffect s a s'

theorem step_handles (hstep : step s a = some s') : HandleEffect s a s' := by
  unfold step at hstep
  split at hstep
  · cases hstep
  · cases a with
    | post =>
      cases hstep
      exact .post
    | handler k choice =>
      obtain ⟨b, hbuild, hstep⟩ := Option.bind_eq_some_iff.1 hstep
      exact .handler hbuild hstep
    | async k choice =>
      obtain ⟨b, hbuild, hstep⟩ := Option.bind_eq_some_iff.1 hstep
      exact .async hbuild hstep
    | cancel =>
      cases hstep
      exact .request
    | cancelGo i =>
      obtain ⟨pc, hrequest, hstep⟩ := Option.bind_eq_some_iff.1 hstep
      cases pc with
      | responded response => cases hstep
      | cancel k =>
        rw [cancelStep] at hstep
        split at hstep
        · rename_i b hbuild
          cases hstep
          exact .cancels hrequest hbuild
        · cases hstep
    | requestShutdown | ctxDone =>
      cases hstep
      exact .other rfl rfl ⟨rfl, rfl⟩ rfl
    | server timeout =>
      obtain ⟨server, rfl⟩ : ∃ server, s' = { s with server := server } := by
        dsimp only at hstep
        unfold serverStep at hstep
        split at hstep
        · split_ifs at hstep
          split at hstep <;> cases hstep <;> exact ⟨_, rfl⟩
        · split at hstep
          · split_ifs at hstep
            cases hstep
            exact ⟨_, rfl⟩
          · cases hstep
        · cases hstep
          exact ⟨_, rfl⟩
        · cases hstep
      exact .other rfl rfl ⟨rfl, rfl⟩ rfl

theorem cancelRequest_eq (s : State) : ∃ pc, s.cancelRequest = { s with cancels := s.cancels ++ [pc] } ∧
    ((∃ k, pc = .cancel k ∧ s.buildCancel = some k ∧ s.build.status = .running) ∨ pc = .responded ⟨200, s.build⟩) := by
  rw [State.cancelRequest]
  cases hcancel : s.buildCancel with
  | none => exact ⟨_, rfl, .inr rfl⟩
  | some k =>
    dsimp only
    split_ifs with hrunning
    · exact ⟨_, rfl, .inl ⟨k, rfl, rfl, hrunning⟩⟩
    · exact ⟨_, rfl, .inr rfl⟩

theorem share_cancel (s : State) (k : Nat) (b : Build) (hterminal : b.Terminal) :
    Share s (s.setBuild k { b with canceled := true }) k b { b with canceled := true } :=
  share_own rfl rfl ⟨rfl, rfl⟩ rfl rfl rfl (fun _ => rfl) hterminal

theorem owned_step (howned : Owned s) (hstep : step s a = some s') : Owned s' := by
  cases step_handles hstep with
  | post => exact owned_post howned
  | handler hbuild hstep =>
    obtain ⟨b', hshare⟩ := handleBuildPost_share hstep
    exact owned_share howned hbuild hshare
  | async hbuild hstep =>
    obtain ⟨b', hshare⟩ := runBuildAsync_share (howned.terminal _ _ hbuild) hstep
    exact owned_share howned hbuild hshare
  | request =>
    obtain ⟨pc, heq, _⟩ := cancelRequest_eq s
    rw [heq]
    exact howned.same rfl rfl ⟨rfl, rfl⟩
  | @cancels i k b _ hbuild =>
    have hset := owned_share howned hbuild (share_cancel s k b (howned.terminal k b hbuild))
    exact hset.same rfl rfl ⟨rfl, rfl⟩
  | other hbuilds hstate hhandles => exact howned.same hbuilds hstate hhandles

theorem owned_run (hexec : exec step initial acts = some t) : Owned t :=
  exec_invariant step (fun _ _ _ howned hstep => owned_step howned hstep) owned_initial hexec

/-! ### Cancel requests -/

def Cancelling (i k : Nat) (s : State) : Prop :=
  s.cancels[i]? = some (.cancel k) ∨
    ∃ b, s.builds[k]? = some b ∧ b.canceled = true ∧ s.cancels[i]? = some (.responded ⟨202, running⟩)

theorem canceled_share {c : Build} (hbuild : s.builds[k]? = some b) (hshare : Share s s' k b b')
    (hc : s.builds[j]? = some c) (hcanceled : c.canceled = true) :
    ∃ c', s'.builds[j]? = some c' ∧ c'.canceled = true := by
  rw [hshare.builds]
  by_cases hjk : j = k
  · subst hjk
    rw [hbuild] at hc
    cases hc
    exact ⟨b', getElem?_set_self (List.getElem?_eq_some_iff.1 hbuild).1, hshare.canceled hcanceled⟩
  · rw [getElem?_set_ne (fun h => hjk h.symm)]
    exact ⟨c, hc, hcanceled⟩

theorem cancelling_share (hcancelling : Cancelling i j s) (hbuild : s.builds[k]? = some b)
    (hshare : Share s s' k b b') : Cancelling i j s' := by
  rw [Cancelling, hshare.cancels]
  rcases hcancelling with hwaiting | ⟨c, hc, hcanceled, hresponded⟩
  · exact .inl hwaiting
  · obtain ⟨c', hc', hcanceled'⟩ := canceled_share hbuild hshare hc hcanceled
    exact .inr ⟨c', hc', hcanceled', hresponded⟩

theorem cancelling_step (howned : Owned s) (hcancelling : Cancelling i j s) (hstep : step s a = some s') :
    Cancelling i j s' := by
  cases step_handles hstep with
  | post =>
    rw [State.post]
    split_ifs
    · exact hcancelling
    · refine hcancelling.imp_right ?_
      rintro ⟨c, hc, hcanceled, hresponded⟩
      refine ⟨c, ?_, hcanceled, hresponded⟩
      show (s.builds ++ [_])[j]? = some c
      rw [getElem?_append_left (List.getElem?_eq_some_iff.1 hc).1]
      exact hc
  | handler hbuild hstep =>
    obtain ⟨b', hshare⟩ := handleBuildPost_share hstep
    exact cancelling_share hcancelling hbuild hshare
  | async hbuild hstep =>
    obtain ⟨b', hshare⟩ := runBuildAsync_share (howned.terminal _ _ hbuild) hstep
    exact cancelling_share hcancelling hbuild hshare
  | request =>
    obtain ⟨pc, heq, _⟩ := cancelRequest_eq s
    rw [heq]
    have hkept {request : CancelPc} (hi : s.cancels[i]? = some request) :
        (s.cancels ++ [pc])[i]? = some request := by
      rw [getElem?_append_left (List.getElem?_eq_some_iff.1 hi).1]
      exact hi
    rcases hcancelling with hwaiting | ⟨c, hc, hcanceled, hresponded⟩
    · exact .inl (hkept hwaiting)
    · exact .inr ⟨c, hc, hcanceled, hkept hresponded⟩
  | @cancels i' k b hrequest hbuild =>
    have hshare := share_cancel s k b (howned.terminal k b hbuild)
    by_cases hii : i' = i
    · subst hii
      have hset : (s.cancels.set i' (.responded ⟨202, running⟩))[i']? = some (.responded ⟨202, running⟩) :=
        getElem?_set_self (List.getElem?_eq_some_iff.1 hrequest).1
      rcases hcancelling with hwaiting | ⟨c, hc, hcanceled, _⟩
      · rw [hrequest] at hwaiting
        cases hwaiting
        refine .inr ⟨{ b with canceled := true }, ?_, rfl, hset⟩
        exact getElem?_set_self (List.getElem?_eq_some_iff.1 hbuild).1
      · obtain ⟨c', hc', hcanceled'⟩ := canceled_share hbuild hshare hc hcanceled
        exact .inr ⟨c', hc', hcanceled', hset⟩
    · have hother : (s.cancels.set i' (.responded ⟨202, running⟩))[i]? = s.cancels[i]? :=
        getElem?_set_ne hii
      rw [Cancelling]
      dsimp only
      rw [hother]
      exact cancelling_share hcancelling hbuild hshare
  | other hbuilds hstate hhandles hcancels =>
    rw [Cancelling, hbuilds, hcancels]
    exact hcancelling

theorem cancelling_run (howned : Owned s) (hcancelling : Cancelling i j s)
    (hexec : exec step s acts = some t) : Cancelling i j t := by
  have hboth := exec_invariant step
    (fun _ _ _ (hboth : Owned _ ∧ Cancelling i j _) hstep =>
      ⟨owned_step hboth.1 hstep, cancelling_step hboth.1 hboth.2 hstep⟩) ⟨howned, hcancelling⟩ hexec
  exact hboth.2

theorem responded_step {response : Response} (howned : Owned s)
    (hresponded : s.cancels[i]? = some (.responded response)) (hstep : step s a = some s') :
    s'.cancels[i]? = some (.responded response) := by
  cases step_handles hstep with
  | post =>
    rw [State.post]
    split_ifs <;> exact hresponded
  | handler hbuild hstep =>
    obtain ⟨b', hshare⟩ := handleBuildPost_share hstep
    rw [hshare.cancels]
    exact hresponded
  | async hbuild hstep =>
    obtain ⟨b', hshare⟩ := runBuildAsync_share (howned.terminal _ _ hbuild) hstep
    rw [hshare.cancels]
    exact hresponded
  | request =>
    obtain ⟨pc, heq, _⟩ := cancelRequest_eq s
    rw [heq]
    show (s.cancels ++ [pc])[i]? = _
    rw [getElem?_append_left (List.getElem?_eq_some_iff.1 hresponded).1]
    exact hresponded
  | @cancels i' k b hrequest hbuild =>
    have hne : i' ≠ i := by
      rintro rfl
      rw [hrequest] at hresponded
      cases hresponded
    show (s.cancels.set i' _)[i]? = _
    rw [getElem?_set_ne hne]
    exact hresponded
  | other hbuilds hstate hhandles hcancels =>
    rw [hcancels]
    exact hresponded

theorem responded_run {response : Response} (howned : Owned s)
    (hresponded : s.cancels[i]? = some (.responded response)) (hexec : exec step s acts = some t) :
    t.cancels[i]? = some (.responded response) := by
  have hboth := exec_invariant step
    (fun _ _ _ (hboth : Owned _ ∧ _) hstep =>
      ⟨owned_step hboth.1 hstep, responded_step hboth.1 hboth.2 hstep⟩) ⟨howned, hresponded⟩ hexec
  exact hboth.2

theorem cancel_request_run {t' : State} {later : List Action} (howned : Owned t)
    (hexec : exec step t (.cancel :: later) = some t') :
    (∃ k b, t.builds[k]? = some b ∧ b.pc.pending = true ∧ t.buildCancel = some k ∧
      Cancelling t.cancels.length k t') ∨
    t'.cancels[t.cancels.length]? = some (.responded ⟨200, t.build⟩) := by
  obtain ⟨t₁, hstep, hrest⟩ := (exec_cons_eq_some step).1 hexec
  have howned₁ := owned_step howned hstep
  have heq₁ : t₁ = t.cancelRequest := by
    unfold step at hstep
    split at hstep
    · cases hstep
    · exact (Option.some.inj hstep).symm
  obtain ⟨pc, heq, hpc⟩ := cancelRequest_eq t
  have hlast : t₁.cancels[t.cancels.length]? = some pc := by
    rw [heq₁, heq]
    exact getElem?_concat_length
  rcases hpc with ⟨k, rfl, hcancel, hrunning⟩ | rfl
  · obtain ⟨j, b, hbuild, hpending, hown, _⟩ := howned.owner hrunning
    rw [hcancel] at hown
    cases hown
    exact .inl ⟨k, b, hbuild, hpending, hcancel, cancelling_run howned₁ (.inl hlast) hrest⟩
  · exact .inr (responded_run howned₁ hlast hrest)

/-! ### Ownership -/

theorem handles_of_step (howned : Owned s) (hstep : step s a = some s')
    (ha : ∃ choice, a = .handler k choice ∨ a = .async k choice) :
    (s'.buildCancel = s.buildCancel ∧ s'.buildDone = s.buildDone) ∨
    (s.buildCancel = some k ∧ s.buildDone = some k ∧ s'.buildCancel = none ∧ s'.buildDone = none) := by
  have hshared : ∀ b b', s.builds[k]? = some b → Share s s' k b b' →
      (s'.buildCancel = s.buildCancel ∧ s'.buildDone = s.buildDone) ∨
      (s.buildCancel = some k ∧ s.buildDone = some k ∧ s'.buildCancel = none ∧ s'.buildDone = none) := by
    intro b b' _ hshare
    refine hshare.handles.imp_right ?_
    rintro ⟨_, hdone, hcleared⟩
    exact ⟨howned.together.trans hdone, hdone, hcleared⟩
  cases step_handles hstep with
  | handler hbuild hstep =>
    obtain ⟨choice, hk | hk⟩ := ha <;> cases hk
    obtain ⟨b', hshare⟩ := handleBuildPost_share hstep
    exact hshared _ b' hbuild hshare
  | async hbuild hstep =>
    obtain ⟨choice, hk | hk⟩ := ha <;> cases hk
    obtain ⟨b', hshare⟩ := runBuildAsync_share (howned.terminal _ _ hbuild) hstep
    exact hshared _ b' hbuild hshare
  | other hbuilds hstate hhandles => exact .inl hhandles
  | post | request | cancels => obtain ⟨choice, hk | hk⟩ := ha <;> cases hk

/-- One build at a time runs, and the handles are its own. -/
theorem build_ownership {t : State} {acts : List Action} (hexec : Runs.exec step initial acts = some t) :
    (∀ (j k : Nat) (b c : Build), t.builds[j]? = some b → t.builds[k]? = some c → b.pc.pending = true → c.pc.pending = true →
      j = k) ∧
    (t.build.status = .running → ∃ k b, t.builds[k]? = some b ∧ b.pc.pending = true ∧
      t.buildCancel = some k ∧ t.buildDone = some k) ∧
    (∀ later t' state, Runs.exec step t (.cancel :: later) = some t' →
      t'.cancels[t.cancels.length]? = some (.responded ⟨202, state⟩) →
      ∃ (k : Nat) (b b' : Build), t.builds[k]? = some b ∧ b.pc.pending = true ∧ t'.builds[k]? = some b' ∧
        b'.canceled = true) ∧
    (∀ later t' k, Runs.exec step t (.cancel :: later) = some t' →
      t'.cancels[t.cancels.length]? = some (.cancel k) →
      ∃ b, t.builds[k]? = some b ∧ b.pc.pending = true) ∧
    (∀ i t', step t (.cancelGo i) = some t' → ∃ k b, t.cancels[i]? = some (.cancel k) ∧
      t.builds[k]? = some b ∧ t'.builds = t.builds.set k { b with canceled := true } ∧
      t'.cancels[i]? = some (.responded ⟨202, running⟩)) ∧
    (∀ k choice a t', a = .handler k choice ∨ a = .async k choice → step t a = some t' →
      (t'.buildCancel = t.buildCancel ∧ t'.buildDone = t.buildDone) ∨
      (t.buildCancel = some k ∧ t.buildDone = some k ∧ t'.buildCancel = none ∧ t'.buildDone = none)) ∧
    (∀ (k : Nat) (b : Build), t.builds[k]? = some b → b.closes ≤ 1 ∧ (b.pc = .exited → b.closes = 1)) := by
  have howned := owned_run hexec
  refine ⟨?_, howned.owner, ?_, ?_, ?_, ?_, ?_⟩
  · intro j k b c hb hc hpending hpending'
    have hj := (howned.running j b hb hpending).1
    have hk := (howned.running k c hc hpending').1
    omega
  · intro later t' state hrun hresponded
    rcases cancel_request_run howned hrun with ⟨k, b, hbuild, hpending, _, hcancelling⟩ | hnone
    · rcases hcancelling with hwaiting | ⟨b', hbuild', hcanceled, _⟩
      · rw [hresponded] at hwaiting
        cases hwaiting
      · exact ⟨k, b, b', hbuild, hpending, hbuild', hcanceled⟩
    · rw [hresponded] at hnone
      cases hnone
  · intro later t' k hrun hwaiting
    rcases cancel_request_run howned hrun with ⟨j, b, hbuild, hpending, _, hcancelling⟩ | hnone
    · rcases hcancelling with hsame | ⟨_, _, _, hresponded⟩
      · rw [hwaiting] at hsame
        cases hsame
        exact ⟨b, hbuild, hpending⟩
      · rw [hwaiting] at hresponded
        cases hresponded
    · rw [hwaiting] at hnone
      cases hnone
  · intro i t' hstep
    unfold step at hstep
    split at hstep
    · cases hstep
    · obtain ⟨pc, hrequest, hstep⟩ := Option.bind_eq_some_iff.1 hstep
      cases pc with
      | responded response => cases hstep
      | cancel k =>
        rw [cancelStep] at hstep
        split at hstep
        · rename_i b hbuild
          cases hstep
          exact ⟨k, b, hrequest, hbuild, rfl,
            List.getElem?_set_self (List.getElem?_eq_some_iff.1 hrequest).1⟩
        · cases hstep
  · intro k choice a t' ha hstep
    exact handles_of_step howned hstep ⟨choice, ha⟩
  · intro k b hbuild
    have hcloses := howned.closes k b hbuild
    refine ⟨by omega, fun hpc => ?_⟩
    have hdone : b.unclosed = 0 := by
      rw [Build.unclosed, hpc]
      rfl
    omega

theorem build_ownership_second :
    ∃ t k b, Runs.exec step initial (sampleFirst ++ sampleSecond) = some t ∧ t.builds.length = 2 ∧
      t.builds[k]? = some b ∧ b.pc.pending = true ∧ t.buildCancel = some k ∧ t.buildDone = some k := by
  have hexec : Runs.exec step initial (sampleFirst ++ sampleSecond) = some _ := rfl
  obtain ⟨k, b, howner⟩ := (build_ownership hexec).2.1 (by decide +kernel)
  exact ⟨_, k, b, rfl, by decide +kernel, howner⟩

end BuildkitService.BatchDaemon
