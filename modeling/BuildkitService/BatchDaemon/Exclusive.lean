import BuildkitService.Lib.Threads
import BuildkitService.BatchDaemon.Machine

/-!
# The shared image directory

All builds of the batch daemon extract to, read from and remove one directory.
-/

namespace BuildkitService.BatchDaemon

open Threads

variable {s s' : State} {k : Nat} {b : Build} {choice : Choice} {a : Action} {pc : BuildPc}

/-! ### Steps -/

def BuildPc.pending : BuildPc → Bool
  | .createTemp | .receive | .dropZip _ | .queryOptions | .validate | .oneshotFlag | .setOneshot | .spawn
  | .publishFailure _ | .options | .removeOld | .extract | .build | .publish _ => true
  | _ => false

def BuildPc.usesDir : BuildPc → Bool
  | .removeOld | .extract | .build | .removeDir => true
  | _ => false

def BuildPc.ownsTree : BuildPc → Bool
  | .extract | .build => true
  | _ => false

def BuildPc.tidied : BuildPc → Bool
  | .removeDir => false
  | pc => !pc.pending

inductive BuildEffect (s : State) (k : Nat) (b : Build) : State → Prop
  | prepares {b' : Build} (hpending : b.pc.pending = true) (hpending' : b'.pc.pending = true)
      (htree : b'.pc.ownsTree = false) : BuildEffect s k b (s.setBuild k b')
  | setsOneshot (hpc : b.pc = .setOneshot) :
      BuildEffect s k b ({ s with oneshot := true }.setBuild k { b with pc := .spawn })
  | fills {pc : BuildPc} (dir : Option (List File)) (hpc : b.pc = .removeOld ∨ b.pc = .extract)
      (hpc' : pc = .removeOld ∨ pc = .extract) : BuildEffect s k b (s.setImageDir k b pc dir)
  | extracted (hpc : b.pc = .extract) : BuildEffect s k b (s.setBuild k { b with pc := .build })
  | reads (hpc : b.pc = .build) :
      BuildEffect s k b (s.setBuild k { b with seen := b.seen ++ s.imageDir.getD [] })
  | publishes {state : DaemonState} {pc : BuildPc} (hpending : b.pc.pending = true)
      (hpc : pc.pending = false) : BuildEffect s k b ((s.setBuildState state).setBuild k { b with pc := pc })
  | empties {pc : BuildPc} (dir : Option (List File)) (hpc : b.pc = .removeDir)
      (hpc' : pc = .removeDir ∨ pc = .removeZip) : BuildEffect s k b (s.setImageDir k b pc dir)
  | finishes {b' : Build} (htidied : b.pc.tidied = true) (htidied' : b'.pc.tidied = true) :
      BuildEffect s k b (s.setBuild k b')
  | clears {pc : BuildPc} (htidied : b.pc.tidied = true) (htidied' : pc.tidied = true) :
      BuildEffect s k b ((s.clearBuildExecution k).setBuild k { b with pc := pc })
  | shuts (hpc : b.pc = .shutdown) : BuildEffect s k b (s.triggerShutdown.setBuild k { b with pc := .exited })

theorem handleBuildPost_effect (hstep : handleBuildPost s k b choice = some s') : BuildEffect s k b s' := by
  unfold handleBuildPost at hstep
  split at hstep <;> rename_i hpc <;> cases hstep
  case h_12 oneshot => exact .prepares (by rw [hpc]; rfl) (by cases oneshot <;> rfl) (by cases oneshot <;> rfl)
  case h_14 => exact .setsOneshot hpc
  case h_16 failure => exact .publishes (by rw [hpc]; rfl) rfl
  case h_17 failure | h_18 failure | h_20 failure | h_21 failure => exact .finishes (by rw [hpc]; rfl) rfl
  case h_19 failure => exact .clears (by rw [hpc]; rfl) (by split <;> rfl)
  all_goals exact .prepares (by rw [hpc]; rfl) rfl rfl

theorem runBuildAsync_effect (hstep : runBuildAsync s k b choice = some s') : BuildEffect s k b s' := by
  unfold runBuildAsync at hstep
  split at hstep <;> rename_i hpc <;> cases hstep
  case h_1 | h_2 | h_9 | h_11 | h_12 => exact .prepares (by rw [hpc]; rfl) rfl rfl
  case h_3 | h_4 | h_5 => exact .fills _ (.inl hpc) (by simp)
  case h_6 | h_7 => exact .fills _ (.inr hpc) (by simp)
  case h_8 => exact .extracted hpc
  case h_10 => exact .reads hpc
  case h_13 => exact .publishes (by rw [hpc]; rfl) rfl
  case h_14 | h_15 | h_16 => exact .empties _ hpc (by simp)
  case h_17 => exact .finishes (by rw [hpc]; rfl) rfl
  case h_18 => exact .clears (by rw [hpc]; rfl) rfl
  case h_19 => exact .finishes (by rw [hpc]; rfl) (by dsimp only; split <;> rfl)
  case h_20 => exact .shuts hpc

inductive StepEffect (s : State) : Action → State → Prop
  | post : StepEffect s .post s.post
  | handler {k : Nat} {b : Build} {choice : Choice} {s' : State} (hbuild : s.builds[k]? = some b)
      (hstep : handleBuildPost s k b choice = some s') : StepEffect s (.handler k choice) s'
  | async {k : Nat} {b : Build} {choice : Choice} {s' : State} (hbuild : s.builds[k]? = some b)
      (hstep : runBuildAsync s k b choice = some s') : StepEffect s (.async k choice) s'
  | cancels {i k : Nat} {b : Build} {cancels : List CancelPc} (hbuild : s.builds[k]? = some b) :
      StepEffect s (.cancelGo i) { s.setBuild k { b with canceled := true } with cancels := cancels }
  | quiet {a : Action} {s' : State} (hbuilds : s'.builds = s.builds) (hstate : s'.build = s.build)
      (himage : s'.imageDir = s.imageDir) (honeshot : s'.oneshot = s.oneshot) (hserver : s'.server = s.server) :
      StepEffect s a s'
  | server {timeout : Bool} {server : ServerPc} (hstopped : ∀ err, server = .stopped err → err = s.completionError) :
      StepEffect s (.server timeout) { s with server := server }

theorem serverStep_effect {timeout : Bool} (hstep : serverStep s timeout = some s') :
    StepEffect s (.server timeout) s' := by
  unfold serverStep at hstep
  split at hstep
  · split_ifs at hstep
    split at hstep <;> cases hstep <;> exact .server nofun
  · split at hstep
    · split_ifs at hstep
      cases hstep
      exact .server nofun
    · cases hstep
  · cases hstep
    exact .server fun err herr => (ServerPc.stopped.inj herr).symm
  · cases hstep

theorem step_effect (hstep : step s a = some s') : StepEffect s a s' := by
  unfold step at hstep
  split at hstep
  · cases hstep
  · cases a with
    | post => cases hstep; exact .post
    | handler k choice =>
      obtain ⟨b, hbuild, hstep⟩ := Option.bind_eq_some_iff.1 hstep
      exact .handler hbuild hstep
    | async k choice =>
      obtain ⟨b, hbuild, hstep⟩ := Option.bind_eq_some_iff.1 hstep
      exact .async hbuild hstep
    | cancel =>
      cases hstep
      rw [State.cancelRequest]
      split
      · split_ifs <;> exact .quiet rfl rfl rfl rfl rfl
      · exact .quiet rfl rfl rfl rfl rfl
    | cancelGo i =>
      obtain ⟨pc, _, hstep⟩ := Option.bind_eq_some_iff.1 hstep
      cases pc with
      | responded response => cases hstep
      | cancel k =>
        rw [cancelStep] at hstep
        split at hstep
        · rename_i b hbuild
          cases hstep
          exact .cancels hbuild
        · cases hstep
    | requestShutdown | ctxDone => cases hstep; exact .quiet rfl rfl rfl rfl rfl
    | server timeout => exact serverStep_effect hstep

/-! ### The last accepted build -/

structure Exclusive (s : State) : Prop where
  running : ∀ (k : Nat) (b : Build), s.builds[k]? = some b → b.pc.pending = true →
    k + 1 = s.builds.length ∧ s.build.status = .running
  dir : ∀ (k : Nat) (b : Build), s.builds[k]? = some b → b.pc.usesDir = true → k + 1 = s.builds.length
  tree : ∀ (k : Nat) (b : Build), s.builds[k]? = some b → b.pc.ownsTree = true → s.imageDir = b.tree

def Tidy (s : State) : Action → Prop
  | .post => s.build.status ≠ .running → ∀ b ∈ s.builds, b.pc ≠ .removeDir
  | _ => True

instance (s : State) : ∀ a, Decidable (Tidy s a)
  | .post => inferInstanceAs (Decidable (s.build.status ≠ .running → ∀ b ∈ s.builds, b.pc ≠ .removeDir))
  | .handler .. | .async .. | .cancel | .cancelGo _ | .requestShutdown | .ctxDone | .server _ => isTrue trivial

theorem usesDir_cases (hdir : pc.usesDir = true) : pc.pending = true ∨ pc = .removeDir := by
  cases pc <;> simp_all [BuildPc.usesDir, BuildPc.pending]

theorem usesDir_of_ownsTree (htree : pc.ownsTree = true) : pc.usesDir = true := by
  cases pc <;> simp_all [BuildPc.usesDir, BuildPc.ownsTree]

theorem pending_of_ownsTree (htree : pc.ownsTree = true) : pc.pending = true := by
  cases pc <;> simp_all [BuildPc.pending, BuildPc.ownsTree]

theorem usesDir_of_tidied (htidied : pc.tidied = true) : pc.usesDir = false := by
  cases pc <;> simp_all [BuildPc.usesDir, BuildPc.tidied, BuildPc.pending]

theorem pending_of_tidied (htidied : pc.tidied = true) : pc.pending = false := by
  cases pc <;> simp_all [BuildPc.tidied, BuildPc.pending]

theorem Exclusive.moves {b' : Build} (hexclusive : Exclusive s) (hbuild : s.builds[k]? = some b)
    (hbuilds : s'.builds = s.builds.set k b')
    (hpending : b'.pc.pending = true → b.pc.pending = true ∧ s'.build = s.build)
    (hdir : b'.pc.usesDir = true → b.pc.pending = true ∨ b.pc.usesDir = true)
    (htree : b'.pc.ownsTree = true → s'.imageDir = b'.tree)
    (hstate : s'.build = s.build ∨ b.pc.pending = true)
    (himage : s'.imageDir = s.imageDir ∨ b.pc.usesDir = true) : Exclusive s' := by
  have hlength : s'.builds.length = s.builds.length := by rw [hbuilds, List.length_set]
  have hcases : ∀ j c, s'.builds[j]? = some c → (j = k ∧ c = b') ∨ (j ≠ k ∧ s.builds[j]? = some c) := by
    intro j c hc
    rw [hbuilds] at hc
    exact getElem?_set_cases hc
  refine ⟨?_, ?_, ?_⟩
  · intro j c hc hcpending
    rw [hlength]
    rcases hcases j c hc with ⟨rfl, rfl⟩ | ⟨hne, hold⟩
    · obtain ⟨hbpending, hsame⟩ := hpending hcpending
      rw [hsame]
      exact hexclusive.running _ b hbuild hbpending
    · obtain ⟨hlast, hrunning⟩ := hexclusive.running j c hold hcpending
      rcases hstate with hsame | hbpending
      · rw [hsame]
        exact ⟨hlast, hrunning⟩
      · have hlast' := (hexclusive.running k b hbuild hbpending).1
        omega
  · intro j c hc hcdir
    rw [hlength]
    rcases hcases j c hc with ⟨rfl, rfl⟩ | ⟨_, hold⟩
    · rcases hdir hcdir with hbpending | hbdir
      · exact (hexclusive.running _ b hbuild hbpending).1
      · exact hexclusive.dir _ b hbuild hbdir
    · exact hexclusive.dir j c hold hcdir
  · intro j c hc hctree
    rcases hcases j c hc with ⟨rfl, rfl⟩ | ⟨hne, hold⟩
    · exact htree hctree
    · rcases himage with hsame | hbdir
      · rw [hsame]
        exact hexclusive.tree j c hold hctree
      · have hlast := hexclusive.dir j c hold (usesDir_of_ownsTree hctree)
        have hlast' := hexclusive.dir k b hbuild hbdir
        omega

theorem clearBuildExecution_frame (s : State) (k : Nat) : (s.clearBuildExecution k).builds = s.builds ∧
    (s.clearBuildExecution k).build = s.build ∧ (s.clearBuildExecution k).imageDir = s.imageDir := by
  rw [State.clearBuildExecution]
  split_ifs <;> exact ⟨rfl, rfl, rfl⟩

section

variable (hexclusive : Exclusive s)

include hexclusive

theorem Exclusive.tidied {b' : Build} (hbuild : s.builds[k]? = some b)
    (hbuilds : s'.builds = s.builds.set k b') (htidied : b'.pc.tidied = true) (hstate : s'.build = s.build)
    (himage : s'.imageDir = s.imageDir) : Exclusive s' := by
  have hdir := usesDir_of_tidied htidied
  refine hexclusive.moves hbuild hbuilds ?_ ?_ ?_ (.inl hstate) (.inl himage)
  · rw [pending_of_tidied htidied]
    exact nofun
  · rw [hdir]
    exact nofun
  · intro htree
    rw [usesDir_of_ownsTree htree] at hdir
    cases hdir

theorem exclusive_build (hbuild : s.builds[k]? = some b) (heffect : BuildEffect s k b s') : Exclusive s' := by
  cases heffect with
  | prepares hpending hpending' htree =>
    exact hexclusive.moves hbuild rfl (fun _ => ⟨hpending, rfl⟩) (fun _ => .inl hpending)
      (fun h => by rw [htree] at h; cases h) (.inl rfl) (.inl rfl)
  | setsOneshot hpc =>
    have hpending : b.pc.pending = true := by rw [hpc]; rfl
    exact hexclusive.moves hbuild rfl (fun _ => ⟨hpending, rfl⟩) (fun _ => .inl hpending) nofun (.inl rfl)
      (.inl rfl)
  | fills dir hpc hpc' =>
    have hpending : b.pc.pending = true := by rcases hpc with h | h <;> rw [h] <;> rfl
    have hdir : b.pc.usesDir = true := by rcases hpc with h | h <;> rw [h] <;> rfl
    exact hexclusive.moves hbuild rfl (fun _ => ⟨hpending, rfl⟩) (fun _ => .inl hpending) (fun _ => rfl)
      (.inl rfl) (.inr hdir)
  | extracted hpc | reads hpc =>
    have hpending : b.pc.pending = true := by rw [hpc]; rfl
    exact hexclusive.moves hbuild rfl (fun _ => ⟨hpending, rfl⟩) (fun _ => .inl hpending)
      (fun _ => hexclusive.tree k b hbuild (by rw [hpc]; rfl)) (.inl rfl) (.inl rfl)
  | publishes hpending hpc =>
    refine hexclusive.moves hbuild rfl (fun h => ?_) (fun _ => .inl hpending) (fun h => ?_) (.inr hpending)
      (.inl rfl)
    · rw [hpc] at h
      cases h
    · rw [pending_of_ownsTree h] at hpc
      cases hpc
  | empties dir hpc hpc' =>
    refine hexclusive.moves hbuild rfl (fun h => ?_) (fun _ => .inr (by rw [hpc]; rfl)) (fun h => ?_)
      (.inl rfl) (.inr (by rw [hpc]; rfl))
    · rcases hpc' with rfl | rfl <;> cases h
    · rcases hpc' with rfl | rfl <;> cases h
  | finishes htidied htidied' => exact hexclusive.tidied hbuild rfl htidied' rfl rfl
  | @clears pc htidied htidied' =>
    obtain ⟨hbuilds, hstate, himage⟩ := clearBuildExecution_frame s k
    have hset : ((s.clearBuildExecution k).setBuild k { b with pc := pc }).builds =
        s.builds.set k { b with pc := pc } := by rw [State.setBuild, hbuilds]
    exact hexclusive.tidied hbuild hset htidied' hstate himage
  | shuts hpc => exact hexclusive.tidied hbuild rfl rfl rfl rfl

theorem Exclusive.same (hbuilds : s'.builds = s.builds) (hstate : s'.build = s.build)
    (himage : s'.imageDir = s.imageDir) : Exclusive s' := by
  refine ⟨?_, ?_, ?_⟩
  · rw [hbuilds, hstate]
    exact hexclusive.running
  · rw [hbuilds]
    exact hexclusive.dir
  · rw [hbuilds, himage]
    exact hexclusive.tree

theorem exclusive_post (hok : Tidy s .post) : Exclusive s.post := by
  rw [State.post]
  split_ifs with hrunning
  · exact hexclusive.same rfl rfl rfl
  · -- No build is pending, and none is at its removal.
    have hfree : ∀ (k : Nat) (b : Build), s.builds[k]? = some b → b.pc.pending = false ∧ b.pc.usesDir = false := by
      intro k b hbuild
      have hpublished : b.pc.pending ≠ true := fun hpending =>
        hrunning (hexclusive.running k b hbuild hpending).2
      refine ⟨Bool.eq_false_iff.2 hpublished, Bool.eq_false_iff.2 ?_⟩
      intro hdir
      rcases usesDir_cases hdir with hpending | hremove
      · exact hpublished hpending
      · exact hok hrunning b (List.mem_of_getElem? hbuild) hremove
    refine ⟨?_, ?_, ?_⟩
    · intro k b hbuild hpending
      rcases getElem?_snoc hbuild with hold | ⟨rfl, _⟩
      · rw [(hfree k b hold).1] at hpending
        cases hpending
      · exact ⟨by simp, rfl⟩
    · intro k b hbuild hdir
      rcases getElem?_snoc hbuild with hold | ⟨rfl, _⟩
      · rw [(hfree k b hold).2] at hdir
        cases hdir
      · simp
    · intro k b hbuild htree
      rcases getElem?_snoc hbuild with hold | ⟨_, rfl⟩
      · have hdir := usesDir_of_ownsTree htree
        rw [(hfree k b hold).2] at hdir
        cases hdir
      · cases htree

theorem exclusive_step (hok : Tidy s a) (hstep : step s a = some s') : Exclusive s' := by
  cases step_effect hstep with
  | post => exact exclusive_post hexclusive hok
  | handler hbuild hstep => exact exclusive_build hexclusive hbuild (handleBuildPost_effect hstep)
  | async hbuild hstep => exact exclusive_build hexclusive hbuild (runBuildAsync_effect hstep)
  | @cancels i k b cancels hbuild =>
    exact hexclusive.moves hbuild rfl (fun h => ⟨h, rfl⟩) .inr (hexclusive.tree k b hbuild) (.inl rfl)
      (.inl rfl)
  | quiet hbuilds hstate himage => exact hexclusive.same hbuilds hstate himage
  | server => exact hexclusive.same rfl rfl rfl

end

/-! ### Runs -/

theorem exclusive_run {t : State} {acts : List Action} (hok : Runs.Along step Tidy initial acts)
    (hexec : Runs.exec step initial acts = some t) : Exclusive t := by
  have hinitial : Exclusive initial := ⟨by simp [initial], by simp [initial], by simp [initial]⟩
  exact Runs.exec_invariant_along step (fun _ _ _ hexclusive hok hstep => exclusive_step hexclusive hok hstep)
    hinitial hok hexec

theorem handleBuildPost_imageDir (hstep : handleBuildPost s k b choice = some s') :
    s'.imageDir = s.imageDir := by
  unfold handleBuildPost at hstep
  split at hstep <;> cases hstep
  case h_19 => exact (clearBuildExecution_frame s k).2.2
  all_goals rfl

theorem runBuildAsync_imageDir (hstep : runBuildAsync s k b choice = some s')
    (hchanged : s'.imageDir ≠ s.imageDir) : b.pc.usesDir = true := by
  cases runBuildAsync_effect hstep with
  | fills dir hpc hpc' => rcases hpc with h | h <;> rw [h] <;> rfl
  | empties dir hpc hpc' => rw [hpc]; rfl
  | clears htidied htidied' => exact absurd (clearBuildExecution_frame s k).2.2 hchanged
  | prepares | setsOneshot | extracted | reads | publishes | finishes | shuts => exact absurd rfl hchanged

theorem imageDir_step (hstep : step s a = some s') (hchanged : s'.imageDir ≠ s.imageDir) :
    ∃ k choice b, a = .async k choice ∧ s.builds[k]? = some b ∧ b.pc.usesDir = true := by
  cases step_effect hstep with
  | post =>
    refine absurd ?_ hchanged
    rw [State.post]
    split_ifs <;> rfl
  | handler _ hstep => exact absurd (handleBuildPost_imageDir hstep) hchanged
  | @async k b choice _ hbuild hstep =>
    exact ⟨k, choice, b, rfl, hbuild, runBuildAsync_imageDir hstep hchanged⟩
  | cancels | server => exact absurd rfl hchanged
  | quiet _ _ himage => exact absurd himage hchanged

/-- Without early posts, the directory belongs to the last build. -/
theorem image_dir_exclusive {t : State} {acts : List Action} (hok : Runs.Along step Tidy initial acts)
    (hexec : Runs.exec step initial acts = some t) :
    (∀ (k : Nat) (b : Build), t.builds[k]? = some b → b.pc.usesDir = true →
      k + 1 = t.builds.length ∧ (b.pc = .removeDir ∨ t.build.status = .running)) ∧
    (∀ a t', step t a = some t' → t'.imageDir ≠ t.imageDir →
      ∃ k choice b, a = .async k choice ∧ t.builds[k]? = some b ∧ b.pc.usesDir = true ∧
        k + 1 = t.builds.length) ∧
    ∀ (k : Nat) (b : Build), t.builds[k]? = some b → b.pc.ownsTree = true → t.imageDir = b.tree := by
  have hexclusive := exclusive_run hok hexec
  refine ⟨?_, ?_, hexclusive.tree⟩
  · intro k b hbuild hdir
    refine ⟨hexclusive.dir k b hbuild hdir, ?_⟩
    rcases usesDir_cases hdir with hpending | hremove
    · exact Or.inr (hexclusive.running k b hbuild hpending).2
    · exact Or.inl hremove
  · intro a t' hstep hchanged
    obtain ⟨k, choice, b, rfl, hbuild, hdir⟩ := imageDir_step hstep hchanged
    exact ⟨k, choice, b, rfl, hbuild, hdir, hexclusive.dir k b hbuild hdir⟩

def sampleAccepted (k : Nat) : List Action :=
  [.post] ++ List.replicate 4 (.handler k .ok) ++ [.handler k (.flag false), .handler k .go]

def sampleFile (name : String) : File := ⟨ascii name, ascii "FROM scratch"⟩

def sampleExtracted (k : Nat) (name : String) : List Action :=
  [.async k .ok, .async k .ok, .async k (.wrote (sampleFile name)), .async k .ok]

def samplePublished (k : Nat) : List Action := [.async k .ok, .async k .go]

def sampleFirst : List Action := sampleAccepted 0 ++ sampleExtracted 0 "a/Dockerfile" ++ samplePublished 0

def sampleSecond : List Action := sampleAccepted 1 ++ sampleExtracted 1 "b/Dockerfile"

theorem image_dir_exclusive_second :
    ∃ t b, Runs.exec step initial (sampleFirst ++ [.async 0 .ok] ++ sampleSecond) = some t ∧
      t.builds[1]? = some b ∧ b.pc = .build ∧ b.tree = some [sampleFile "b/Dockerfile"] ∧
      t.imageDir = b.tree := by
  refine ⟨_, _, rfl, rfl, by decide +kernel, by decide +kernel, ?_⟩
  exact (image_dir_exclusive (by decide +kernel)
    (show Runs.exec step initial (sampleFirst ++ [.async 0 .ok] ++ sampleSecond) = some _ from rfl)).2.2
    1 _ rfl (by decide +kernel)

theorem earlier_cleanup_empties_image_dir :
    ∃ t b, Runs.exec step initial (sampleFirst ++ sampleSecond ++ [.async 0 .ok]) = some t ∧
      t.builds[1]? = some b ∧ b.pc = .build ∧ b.tree = some [sampleFile "b/Dockerfile"] ∧ t.imageDir = none := by
  refine ⟨_, _, rfl, rfl, ?_⟩
  decide +kernel

end BuildkitService.BatchDaemon
