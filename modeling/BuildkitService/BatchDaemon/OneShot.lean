import BuildkitService.BatchDaemon.Exclusive

/-!
# The exit status of a one-shot daemon

`completionError` reads the published state when the server has stopped.
-/

namespace BuildkitService.BatchDaemon

open Threads List

variable {s s' : State} {k : Nat} {b : Build}

/-! ### One build at a time -/

def Build.Flagged (b : Build) (s : State) : Prop := b.oneshot = true → b.pc = .setOneshot ∨ s.oneshot = true

structure Sole (s : State) : Prop where
  running : ∀ (k : Nat) (b : Build), s.builds[k]? = some b → b.pc.pending = true →
    k + 1 = s.builds.length ∧ s.build.status = .running
  flagged : ∀ (k : Nat) (b : Build), s.builds[k]? = some b → b.Flagged s

structure Turn (s s' : State) (k : Nat) (b b' : Build) : Prop where
  builds : s'.builds = s.builds.set k b'
  pending : b'.pc.pending = true → b.pc.pending = true ∧ s'.build = s.build
  published : s'.build = s.build ∨ b.pc.pending = true

theorem BuildEffect.turn (heffect : BuildEffect s k b s') : ∃ b', Turn s s' k b b' := by
  cases heffect with
  | prepares hpending => exact ⟨_, rfl, fun _ => ⟨hpending, rfl⟩, .inl rfl⟩
  | setsOneshot hpc | extracted hpc | reads hpc =>
    exact ⟨_, rfl, fun _ => ⟨by rw [hpc]; rfl, rfl⟩, .inl rfl⟩
  | fills dir hpc => exact ⟨_, rfl, fun _ => ⟨by rcases hpc with h | h <;> rw [h] <;> rfl, rfl⟩, .inl rfl⟩
  | publishes hpending hpc => exact ⟨_, rfl, fun h => by simp [hpc] at h, .inr hpending⟩
  | empties dir hpc hpc' => exact ⟨_, rfl, (by rcases hpc' with rfl | rfl <;> intro h <;> cases h), .inl rfl⟩
  | finishes htidied htidied' =>
    exact ⟨_, rfl, fun h => by simp [pending_of_tidied htidied'] at h, .inl rfl⟩
  | clears htidied htidied' =>
    obtain ⟨hbuilds, hstate, _⟩ := clearBuildExecution_frame s k
    exact ⟨_, by rw [State.setBuild, hbuilds], fun h => by simp [pending_of_tidied htidied'] at h,
      .inl hstate⟩
  | shuts hpc => exact ⟨_, rfl, fun h => (by cases h), .inl rfl⟩

theorem clearBuildExecution_oneshot (s : State) (k : Nat) : (s.clearBuildExecution k).oneshot = s.oneshot := by
  rw [State.clearBuildExecution]
  split_ifs <;> rfl

theorem Build.Flagged.moves {b' : Build} (hflagged : b.Flagged s) (hpc : b.pc ≠ .setOneshot)
    (hbuild : b'.oneshot = b.oneshot) (hserver : s'.oneshot = s.oneshot) : b'.Flagged s' := by
  intro honeshot
  rw [hbuild] at honeshot
  rw [hserver]
  exact .inr ((hflagged honeshot).resolve_left hpc)

theorem handleBuildPost_flagged {choice : Choice} (hflagged : b.Flagged s)
    (hstep : handleBuildPost s k b choice = some s') : (s.oneshot = true → s'.oneshot = true) ∧
    ∃ b', s'.builds = s.builds.set k b' ∧ b'.Flagged s' := by
  unfold handleBuildPost at hstep
  split at hstep <;> rename_i hpc <;> cases hstep
  case h_12 oneshot => exact ⟨id, _, rfl, fun honeshot => .inl (if_pos honeshot)⟩
  case h_14 => exact ⟨fun _ => rfl, _, rfl, fun _ => .inr rfl⟩
  case h_19 failure =>
    have hserver := clearBuildExecution_oneshot s k
    refine ⟨hserver.trans, _, by rw [State.setBuild, (clearBuildExecution_frame s k).1], ?_⟩
    exact hflagged.moves (by simp [hpc]) rfl hserver
  all_goals exact ⟨id, _, rfl, hflagged.moves (by simp [hpc]) rfl rfl⟩

theorem runBuildAsync_flagged {choice : Choice} (hflagged : b.Flagged s)
    (hstep : runBuildAsync s k b choice = some s') : (s.oneshot = true → s'.oneshot = true) ∧
    ∃ b', s'.builds = s.builds.set k b' ∧ b'.Flagged s' := by
  unfold runBuildAsync at hstep
  split at hstep <;> rename_i hpc <;> cases hstep
  case h_18 =>
    have hserver := clearBuildExecution_oneshot s k
    refine ⟨hserver.trans, _, by rw [State.setBuild, (clearBuildExecution_frame s k).1], ?_⟩
    exact hflagged.moves (by simp [hpc]) rfl hserver
  all_goals exact ⟨id, _, rfl, hflagged.moves (by simp [hpc]) rfl rfl⟩

section

variable (hsole : Sole s)

include hsole

theorem sole_build (hbuild : s.builds[k]? = some b) (heffect : BuildEffect s k b s')
    (hflags : (s.oneshot = true → s'.oneshot = true) ∧ ∃ b', s'.builds = s.builds.set k b' ∧ b'.Flagged s') :
    Sole s' := by
  obtain ⟨b', hturn⟩ := heffect.turn
  obtain ⟨hserver, c, hbuilds, hflagged⟩ := hflags
  refine ⟨?_, ?_⟩
  · intro j d hd hpending
    rw [hturn.builds] at hd ⊢
    rw [length_set]
    rcases getElem?_set_cases hd with ⟨rfl, rfl⟩ | ⟨hne, hold⟩
    · obtain ⟨hbefore, hsame⟩ := hturn.pending hpending
      rw [hsame]
      exact hsole.running j b hbuild hbefore
    · obtain ⟨hlast, hrunning⟩ := hsole.running j d hold hpending
      rcases hturn.published with hsame | hbefore
      · rw [hsame]
        exact ⟨hlast, hrunning⟩
      · have hlast' := (hsole.running k b hbuild hbefore).1
        omega
  · intro j d hd
    rw [hbuilds] at hd
    rcases getElem?_set_cases hd with ⟨rfl, rfl⟩ | ⟨_, hold⟩
    · exact hflagged
    · exact fun honeshot => (hsole.flagged j d hold honeshot).imp_right hserver

theorem Sole.same (hbuilds : s'.builds = s.builds) (hstate : s'.build = s.build)
    (hserver : s'.oneshot = s.oneshot) : Sole s' := by
  refine ⟨?_, ?_⟩
  · rw [hbuilds, hstate]
    exact hsole.running
  · rw [hbuilds]
    intro k b hbuild honeshot
    rw [hserver]
    exact hsole.flagged k b hbuild honeshot

theorem sole_post : Sole s.post := by
  rw [State.post]
  split_ifs with hrunning
  · exact hsole.same rfl rfl rfl
  · refine ⟨?_, ?_⟩
    · intro k b hbuild hpending
      rcases getElem?_snoc hbuild with hold | ⟨rfl, _⟩
      · exact absurd (hsole.running k b hold hpending).2 hrunning
      · exact ⟨by simp, rfl⟩
    · intro k b hbuild
      rcases getElem?_snoc hbuild with hold | ⟨_, rfl⟩
      · exact hsole.flagged k b hold
      · intro hflagged
        cases hflagged

theorem sole_cancels {cancels : List CancelPc} (hbuild : s.builds[k]? = some b) :
    Sole { s.setBuild k { b with canceled := true } with cancels := cancels } := by
  refine ⟨?_, ?_⟩
  · intro j c hc hpending
    simp only [State.setBuild, length_set] at hc ⊢
    rcases getElem?_set_cases hc with ⟨rfl, rfl⟩ | ⟨_, hold⟩
    · exact hsole.running j b hbuild hpending
    · exact hsole.running j c hold hpending
  · intro j c hc
    rcases getElem?_set_cases hc with ⟨rfl, rfl⟩ | ⟨_, hold⟩
    · exact hsole.flagged j b hbuild
    · exact hsole.flagged j c hold

theorem sole_step {a : Action} (hstep : step s a = some s') : Sole s' := by
  cases step_effect hstep with
  | post => exact sole_post hsole
  | handler hbuild hstep =>
    exact sole_build hsole hbuild (handleBuildPost_effect hstep)
      (handleBuildPost_flagged (hsole.flagged _ _ hbuild) hstep)
  | async hbuild hstep =>
    exact sole_build hsole hbuild (runBuildAsync_effect hstep)
      (runBuildAsync_flagged (hsole.flagged _ _ hbuild) hstep)
  | cancels hbuild => exact sole_cancels hsole hbuild
  | quiet hbuilds hstate _ honeshot => exact hsole.same hbuilds hstate honeshot
  | server => exact hsole.same rfl rfl rfl

end

theorem sole_run {t : State} {acts : List Action} (hexec : Runs.exec step initial acts = some t) : Sole t := by
  have hinitial : Sole initial := ⟨by simp [initial], by simp [initial]⟩
  exact Runs.exec_invariant step (fun _ _ _ hsole hstep => sole_step hsole hstep) hinitial hexec

/-! ### A published failure -/

def oneshotError (text : Bytes) : Bytes := ascii "oneshot build failed: " ++ text

structure Reported (text : Bytes) (s : State) : Prop where
  state : s.build = ⟨.failed, text⟩
  oneshot : s.oneshot = true
  published : ∀ b ∈ s.builds, b.pc.pending = false
  stopped : ∀ err, s.server = .stopped err → err = some (oneshotError text)

variable {text : Bytes}

theorem Reported.completionError (hreported : Reported text s) :
    s.completionError = some (oneshotError text) := by
  rw [State.completionError, hreported.state, hreported.oneshot]
  rfl

theorem Reported.same (hreported : Reported text s) (hbuilds : s'.builds = s.builds) (hstate : s'.build = s.build)
    (honeshot : s'.oneshot = s.oneshot) (hserver : s'.server = s.server) : Reported text s' :=
  ⟨hstate.trans hreported.state, honeshot.trans hreported.oneshot, by rw [hbuilds]; exact hreported.published,
    by rw [hserver]; exact hreported.stopped⟩

theorem mem_set_of_forall {p : Build → Prop} {c : Build} (hall : ∀ d ∈ s.builds, p d) (hc : p c) :
    ∀ d ∈ s.builds.set k c, p d := by
  intro d hd
  rcases mem_or_eq_of_mem_set hd with hmem | rfl
  · exact hall d hmem
  · exact hc

theorem Reported.moves {b' : Build} (hreported : Reported text s) (hbuilds : s'.builds = s.builds.set k b')
    (hpending : b'.pc.pending = false) (hstate : s'.build = s.build) (honeshot : s'.oneshot = s.oneshot)
    (hserver : s'.server = s.server) : Reported text s' := by
  refine ⟨hstate.trans hreported.state, honeshot.trans hreported.oneshot, ?_, by rw [hserver]; exact hreported.stopped⟩
  rw [hbuilds]
  exact mem_set_of_forall hreported.published hpending

theorem reported_build (hreported : Reported text s) (hbuild : s.builds[k]? = some b)
    (heffect : BuildEffect s k b s') : Reported text s' := by
  have hpublished : b.pc.pending = false := hreported.published b (mem_of_getElem? hbuild)
  cases heffect with
  | prepares hpending | publishes hpending => simp [hpending] at hpublished
  | setsOneshot hpc | extracted hpc | reads hpc =>
    rw [hpc] at hpublished
    cases hpublished
  | fills dir hpc => rcases hpc with h | h <;> rw [h] at hpublished <;> cases hpublished
  | empties dir hpc hpc' =>
    exact hreported.moves rfl (by rcases hpc' with rfl | rfl <;> rfl) rfl rfl rfl
  | finishes htidied htidied' => exact hreported.moves rfl (pending_of_tidied htidied') rfl rfl rfl
  | clears htidied htidied' =>
    obtain ⟨hbuilds, hstate, _⟩ := clearBuildExecution_frame s k
    refine hreported.moves (by rw [State.setBuild, hbuilds]) (pending_of_tidied htidied') hstate
      (clearBuildExecution_oneshot s k) ?_
    rw [State.setBuild, State.clearBuildExecution]
    split_ifs <;> rfl
  | shuts hpc => exact hreported.moves rfl rfl rfl rfl rfl

theorem reported_step {a : Action} (hreported : Reported text s) (hpost : a ≠ .post)
    (hstep : step s a = some s') : Reported text s' := by
  cases step_effect hstep with
  | post => exact absurd rfl hpost
  | handler hbuild hstep => exact reported_build hreported hbuild (handleBuildPost_effect hstep)
  | async hbuild hstep => exact reported_build hreported hbuild (runBuildAsync_effect hstep)
  | @cancels i k b cancels hbuild =>
    have hpublished : b.pc.pending = false := hreported.published b (mem_of_getElem? hbuild)
    exact hreported.moves rfl hpublished rfl rfl rfl
  | quiet hbuilds hstate _ honeshot hserver => exact hreported.same hbuilds hstate honeshot hserver
  | server hstopped =>
    refine ⟨hreported.state, hreported.oneshot, hreported.published, ?_⟩
    intro err herr
    rw [hstopped err herr]
    exact hreported.completionError

theorem reported_of_publish (hsole : Sole s) (hbuild : s.builds[k]? = some b) (honeshot : b.oneshot = true)
    (hpc : b.pc = .publish ⟨.failed, text⟩) (hstep : step s (.async k .go) = some s') : Reported text s' := by
  have hrunning : ∀ err, s.server ≠ .stopped err := by
    intro err herr
    simp only [step, herr] at hstep
    cases hstep
  have hpublish : s' = (s.setBuildState ⟨.failed, text⟩).setBuild k { b with pc := .removeDir } := by
    unfold step at hstep
    split at hstep
    · cases hstep
    · simp only [hbuild, Option.bind_some, runBuildAsync, hpc, Option.some.injEq] at hstep
      exact hstep.symm
  subst hpublish
  have hserver : s.oneshot = true := (hsole.flagged k b hbuild honeshot).resolve_left (by simp [hpc])
  have hlast : k + 1 = s.builds.length := (hsole.running k b hbuild (by simp [hpc, BuildPc.pending])).1
  refine ⟨rfl, hserver, ?_, fun err herr => absurd herr (hrunning err)⟩
  intro c hc
  obtain ⟨j, hj⟩ := getElem?_of_mem hc
  rcases getElem?_set_cases hj with ⟨_, rfl⟩ | ⟨hne, hold⟩
  · rfl
  · -- Only the build that was accepted last may still be pending.
    refine Bool.eq_false_iff.2 fun hpending => hne ?_
    have hlast' := (hsole.running j c hold hpending).1
    omega

def sampleOneshot : List Action :=
  [.post] ++ List.replicate 4 (.handler 0 .ok) ++
    [.handler 0 (.flag true), .handler 0 .go, .handler 0 .go, .async 0 (.err (ascii "bad options"))]

def sampleDeferred (k : Nat) : List Action := .async k .ok :: List.replicate 3 (.async k .go)

def sampleEnd : List Action := sampleDeferred 0 ++ [.async 0 .go, .server false, .server false]

end BuildkitService.BatchDaemon
