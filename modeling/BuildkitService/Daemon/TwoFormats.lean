import BuildkitService.Daemon.Stages

/-!
# Two-format builds

A task of the image type `both` builds an OCI image from the uploaded context, and then a Nydus
image from a context with one line that names the OCI image by its digest.
-/

namespace BuildkitService.Daemon

open Strings List

variable {cfg : Config} {reg : Registry} {spec : TaskSpec} {c : Cell} {s : State}

/-! ### Steps and requests -/

def TaskSpec.buildImage (spec : TaskSpec) : Bytes :=
  if spec.routedTarget.isEmpty then spec.image else spec.routedTarget

def TaskSpec.ociImage (spec : TaskSpec) : Bytes := stripNydusV3Suffix spec.buildImage

def TaskSpec.ociStep (spec : TaskSpec) : BuildStep := ⟨spec.ociImage, .oci, [], []⟩

def TaskSpec.nydusStep (spec : TaskSpec) : BuildStep :=
  ⟨ensureNydusV3Suffix spec.ociImage, .nydus, spec.ociImage, []⟩

theorem steps_both (hboth : c.spec.imageType = .both) : c.steps = [c.spec.ociStep, c.spec.nydusStep] := by
  rw [Cell.steps, hboth]
  rfl

def OnUploaded (spec : TaskSpec) (request : BuildRunRequest) : Prop :=
  ∃ addr, request =
    ⟨spec.contextDir, addr, spec.ociImage, .oci, spec.target, spec.noCache, spec.buildArgs⟩

def OnGenerated (spec : TaskSpec) (contextDir : Bytes) (request : BuildRunRequest) : Prop :=
  ∃ addr, request =
    ⟨contextDir, addr, ensureNydusV3Suffix spec.ociImage, .nydus, [], spec.noCache, []⟩

def BuildCall.Failed (call : BuildCall) : Prop := ∃ result, call.result = some result ∧ result.err ≠ none

def BuildCall.Returned (call : BuildCall) (exporter : Exporter) : Prop :=
  ∃ result, call.result = some result ∧ result.err = none ∧ result.exporter = exporter

structure Registry.Keeps (reg : Registry) : Prop where
  parsed : ∀ {value digest : Bytes}, reg.parseDigest value = .ok digest → digest = value
  pinned : ∀ {named digest text : Bytes}, reg.pin named digest = .ok text →
    (∃ name, text = name ++ ascii "@" ++ digest) ∧ 0x0A ∉ text

def Pins (reg : Registry) (spec : TaskSpec) (exporter : Exporter) (contextDir : Bytes) : Prop :=
  ∃ name digest, digest = trimSpace ((exporter.lookup exporterImageDigestKey).getD []) ∧ digest ≠ [] ∧
    createNydusFromOCIContext reg spec.workDir spec.ociImage exporter (.ok ()) =
      .ok (contextDir, ascii "FROM " ++ (name ++ ascii "@" ++ digest) ++ ascii "\n") ∧
    0x0A ∉ name ++ ascii "@" ++ digest

def Sequence (reg : Registry) (spec : TaskSpec) (calls : List BuildCall) : Prop :=
  ∃ ocis nyduses, calls = ocis ++ nyduses ∧ (∀ call ∈ ocis, OnUploaded spec call.request) ∧
    (∀ call ∈ ocis.dropLast, call.Failed) ∧ (∀ call ∈ nyduses.dropLast, call.Failed) ∧
    (nyduses ≠ [] → ∃ last exporter contextDir, ocis.getLast? = some last ∧ last.Returned exporter ∧
      Pins reg spec exporter contextDir ∧ ∀ call ∈ nyduses, OnGenerated spec contextDir call.request)

def NydusSucceeded (calls : List BuildCall) : Prop :=
  ∃ last, calls.getLast? = some last ∧ last.request.format = .nydus ∧ ∃ exporter, last.Returned exporter

theorem pins_of_context {exporter : Exporter} {contextDir text : Bytes} (hkeeps : reg.Keeps)
    (hcontext : createNydusFromOCIContext reg spec.workDir spec.ociImage exporter (.ok ()) =
      .ok (contextDir, text)) : Pins reg spec exporter contextDir ∧ contextDir ≠ [] := by
  obtain ⟨_, hdir, value, digest, named, base, hvalue, hne, hparsed, _, hpin, htext⟩ :=
    createNydusFromOCIContext_eq_ok hcontext
  obtain ⟨⟨name, hbase⟩, hline⟩ := hkeeps.pinned hpin
  have hdigest : digest = value := hkeeps.parsed hparsed
  subst hdigest
  subst hbase
  subst htext
  refine ⟨⟨name, digest, hvalue, hne, hcontext, hline⟩, ?_⟩
  rw [hdir]
  exact append_ne_nil_of_right_ne_nil _ (by decide)

/-! ### The calls at each stage -/

def OciFailed (spec : TaskSpec) (calls : List BuildCall) : Prop :=
  ∀ call ∈ calls, OnUploaded spec call.request ∧ call.Failed

def NydusFailed (spec : TaskSpec) (contextDir : Bytes) (calls : List BuildCall) : Prop :=
  ∀ call ∈ calls, OnGenerated spec contextDir call.request ∧ call.Failed

def OciDone (spec : TaskSpec) (exporter : Exporter) (calls : List BuildCall) : Prop :=
  ∃ failed last, calls = failed ++ [last] ∧ OciFailed spec failed ∧ OnUploaded spec last.request ∧
    last.Returned exporter

inductive Tries (reg : Registry) (spec : TaskSpec) (a : Attempt) : List BuildCall → Prop
  | oci {calls : List BuildCall} (hstep : a.step = spec.ociStep) (hrest : a.rest = [spec.nydusStep])
      (hcalls : OciFailed spec calls) : Tries reg spec a calls
  | nydus {done calls : List BuildCall} {exporter : Exporter} {contextDir : Bytes}
      (hstep : a.step = { spec.nydusStep with contextDir := contextDir }) (hrest : a.rest = [])
      (hdir : contextDir ≠ []) (hdone : OciDone spec exporter done)
      (hpins : Pins reg spec exporter contextDir) (hcalls : NydusFailed spec contextDir calls) :
      Tries reg spec a (done ++ calls)

inductive Called (reg : Registry) (spec : TaskSpec) (a : Attempt) (result : Option BuildResult) :
    List BuildCall → Prop
  | oci {calls : List BuildCall} {request : BuildRunRequest} (hstep : a.step = spec.ociStep)
      (hrest : a.rest = [spec.nydusStep]) (hcalls : OciFailed spec calls)
      (hrequest : OnUploaded spec request) : Called reg spec a result (calls ++ [⟨request, result⟩])
  | nydus {done calls : List BuildCall} {exporter : Exporter} {contextDir : Bytes}
      {request : BuildRunRequest}
      (hstep : a.step = { spec.nydusStep with contextDir := contextDir }) (hrest : a.rest = [])
      (hdir : contextDir ≠ []) (hdone : OciDone spec exporter done)
      (hpins : Pins reg spec exporter contextDir) (hcalls : NydusFailed spec contextDir calls)
      (hrequest : OnGenerated spec contextDir request) :
      Called reg spec a result (done ++ calls ++ [⟨request, result⟩])

def Fits (reg : Registry) (spec : TaskSpec) (builds : List BuildCall) : Stage → Prop
  | .waiting => builds = []
  | .between steps exporter => (steps = [spec.ociStep, spec.nydusStep] ∧ builds = []) ∨
      (steps = [spec.nydusStep] ∧ OciDone spec exporter builds) ∨
      (steps = [] ∧ Sequence reg spec builds ∧ NydusSucceeded builds)
  | .preparing step rest exporter => step = spec.nydusStep ∧ rest = [] ∧ OciDone spec exporter builds
  | .trying a => Tries reg spec a builds
  | .building a => Called reg spec a none builds
  | .built a exporter err => ∃ late, Called reg spec a (some ⟨exporter, err, late⟩) builds
  | .tried a exporter none => ∃ late, Called reg spec a (some ⟨exporter, none, late⟩) builds
  | .tried a _ (some _) => Tries reg spec a builds
  | .finishing status => Sequence reg spec builds ∧ (status = .succeeded ↔ NydusSucceeded builds)
  | .ended => Sequence reg spec builds

/-! ### From the stages to the sequence -/

section Calls

variable {a a' : Attempt} {calls done failures tail : List BuildCall} {exporter : Exporter} {contextDir : Bytes}
  {result : Option BuildResult}

theorem mem_of_mem_dropLast_append {α : Type} {x : α} {xs tail : List α} (htail : tail.length ≤ 1)
    (hx : x ∈ (xs ++ tail).dropLast) : x ∈ xs := by
  cases tail with
  | nil =>
    rw [append_nil] at hx
    exact mem_of_mem_dropLast hx
  | cons y rest =>
    have hrest : rest = [] := by simpa using htail
    rwa [hrest, dropLast_concat] at hx

theorem sequence_uploaded (hfailed : OciFailed spec failures) (htail : tail.length ≤ 1)
    (hrequests : ∀ call ∈ tail, OnUploaded spec call.request) : Sequence reg spec (failures ++ tail) := by
  refine ⟨failures ++ tail, [], by simp, ?_, ?_, by simp, by simp⟩
  · intro call hcall
    rcases mem_append.1 hcall with hold | hnew
    · exact (hfailed call hold).1
    · exact hrequests call hnew
  · intro call hcall
    exact (hfailed call (mem_of_mem_dropLast_append htail hcall)).2

theorem sequence_generated (hdone : OciDone spec exporter done) (hpins : Pins reg spec exporter contextDir)
    (hfailed : NydusFailed spec contextDir failures) (htail : tail.length ≤ 1)
    (hrequests : ∀ call ∈ tail, OnGenerated spec contextDir call.request) :
    Sequence reg spec (done ++ (failures ++ tail)) := by
  obtain ⟨earlier, last, rfl, hearlier, hlast, hreturned⟩ := hdone
  refine ⟨earlier ++ [last], failures ++ tail, rfl, ?_, ?_, ?_, fun _ => ?_⟩
  · intro call hcall
    rcases mem_append.1 hcall with hold | hnew
    · exact (hearlier call hold).1
    · rw [mem_singleton.1 hnew]
      exact hlast
  · intro call hcall
    rw [dropLast_concat] at hcall
    exact (hearlier call hcall).2
  · intro call hcall
    exact (hfailed call (mem_of_mem_dropLast_append htail hcall)).2
  · refine ⟨last, exporter, contextDir, getLast?_concat, hreturned, hpins, ?_⟩
    intro call hcall
    rcases mem_append.1 hcall with hold | hnew
    · exact (hfailed call hold).1
    · exact hrequests call hnew

theorem sequence_of_eq_nil (hcalls : calls = []) : Sequence reg spec calls :=
  ⟨[], [], hcalls, by simp, by simp, by simp, by simp⟩

theorem OciDone.sequence (hdone : OciDone spec exporter calls) : Sequence reg spec calls := by
  obtain ⟨earlier, last, rfl, hearlier, hlast, _⟩ := hdone
  refine sequence_uploaded hearlier le_rfl ?_
  intro call hcall
  rw [mem_singleton.1 hcall]
  exact hlast

theorem Tries.sequence (htries : Tries reg spec a calls) : Sequence reg spec calls := by
  cases htries with
  | oci hstep hrest hcalls =>
    have hsequence : Sequence reg spec (calls ++ []) := sequence_uploaded hcalls (by simp) (by simp)
    rwa [append_nil] at hsequence
  | @nydus done calls exporter contextDir hstep hrest hdir hdone hpins hcalls =>
    have hsequence : Sequence reg spec (done ++ (calls ++ [])) :=
      sequence_generated hdone hpins hcalls (by simp) (by simp)
    rwa [append_nil] at hsequence

theorem Called.sequence (hcalled : Called reg spec a result calls) : Sequence reg spec calls := by
  cases hcalled with
  | oci hstep hrest hcalls hrequest =>
    refine sequence_uploaded hcalls le_rfl ?_
    intro call hcall
    rw [mem_singleton.1 hcall]
    exact hrequest
  | nydus hstep hrest hdir hdone hpins hcalls hrequest =>
    rw [append_assoc]
    refine sequence_generated hdone hpins hcalls le_rfl ?_
    intro call hcall
    rw [mem_singleton.1 hcall]
    exact hrequest

theorem not_succeeded_of_eq_nil (hcalls : calls = []) : ¬NydusSucceeded calls := by
  rintro ⟨last, hlast, _⟩
  rw [hcalls] at hlast
  cases hlast

theorem not_succeeded_of_uploaded (huploaded : ∀ call ∈ calls, OnUploaded spec call.request) :
    ¬NydusSucceeded calls := by
  rintro ⟨last, hlast, hformat, _⟩
  obtain ⟨addr, hrequest⟩ := huploaded last (mem_of_getLast? hlast)
  rw [hrequest] at hformat
  cases hformat

theorem OciDone.uploaded (hdone : OciDone spec exporter calls) : ∀ call ∈ calls, OnUploaded spec call.request := by
  obtain ⟨earlier, last, rfl, hearlier, hlast, _⟩ := hdone
  intro call hcall
  rcases mem_append.1 hcall with hold | hnew
  · exact (hearlier call hold).1
  · rw [mem_singleton.1 hnew]
    exact hlast

theorem BuildCall.Failed.not_returned {call : BuildCall} (hfailed : call.Failed) : ¬call.Returned exporter := by
  obtain ⟨result, hresult, herr⟩ := hfailed
  rintro ⟨result', hresult', hnone, _⟩
  rw [hresult] at hresult'
  cases hresult'
  exact herr hnone

theorem Tries.not_succeeded (htries : Tries reg spec a calls) : ¬NydusSucceeded calls := by
  cases htries with
  | oci hstep hrest hcalls => exact not_succeeded_of_uploaded fun call hcall => (hcalls call hcall).1
  | @nydus done calls exporter contextDir hstep hrest hdir hdone hpins hcalls =>
    rcases eq_nil_or_concat calls with rfl | ⟨earlier, last, rfl⟩
    · rw [append_nil]
      exact not_succeeded_of_uploaded hdone.uploaded
    · rintro ⟨last', hlast, _, exporter', hreturned⟩
      rw [concat_eq_append, ← append_assoc, getLast?_concat] at hlast
      cases hlast
      exact (hcalls last (by simp)).2.not_returned hreturned

/-! ### One call -/

theorem Tries.again (htries : Tries reg spec a calls) (hstep : a'.step = a.step) (hrest : a'.rest = a.rest) :
    Tries reg spec a' calls := by
  cases htries with
  | oci hs hr hcalls => exact .oci (hstep.trans hs) (hrest.trans hr) hcalls
  | nydus hs hr hdir hdone hpins hcalls => exact .nydus (hstep.trans hs) (hrest.trans hr) hdir hdone hpins hcalls

theorem Tries.called (htries : Tries reg c.spec a calls) (addr : Bytes) :
    Called reg c.spec a none (calls ++ [⟨c.request a addr, none⟩]) := by
  cases htries with
  | oci hstep hrest hcalls =>
    refine .oci hstep hrest hcalls ⟨addr, ?_⟩
    rw [Cell.request, hstep]
    rfl
  | nydus hstep hrest hdir hdone hpins hcalls =>
    refine .nydus hstep hrest hdir hdone hpins hcalls ⟨addr, ?_⟩
    rw [Cell.request, hstep, if_neg (by simpa using hdir)]
    rfl

theorem finishCall_append (result : BuildResult) (call : BuildCall) : ∀ calls : List BuildCall,
    finishCall result (calls ++ [call]) = calls ++ [{ call with result := some result }]
  | [] => rfl
  | [first] => rfl
  | first :: next :: calls => by
      have hrest := finishCall_append result call (next :: calls)
      simpa [finishCall] using hrest

theorem Called.finish (hcalled : Called reg spec a none calls) (result : BuildResult) :
    Called reg spec a (some result) (finishCall result calls) := by
  cases hcalled with
  | oci hstep hrest hcalls hrequest =>
    rw [finishCall_append]
    exact .oci hstep hrest hcalls hrequest
  | nydus hstep hrest hdir hdone hpins hcalls hrequest =>
    rw [finishCall_append]
    exact .nydus hstep hrest hdir hdone hpins hcalls hrequest

theorem Called.failed {err : Bytes} {late : Bool}
    (hcalled : Called reg spec a (some ⟨exporter, some err, late⟩) calls) : Tries reg spec a calls := by
  cases hcalled with
  | oci hstep hrest hcalls hrequest =>
    refine .oci hstep hrest ?_
    intro call hcall
    rcases mem_append.1 hcall with hold | hnew
    · exact hcalls call hold
    · rw [mem_singleton.1 hnew]
      exact ⟨hrequest, _, rfl, by simp⟩
  | nydus hstep hrest hdir hdone hpins hcalls hrequest =>
    rw [append_assoc]
    refine .nydus hstep hrest hdir hdone hpins ?_
    intro call hcall
    rcases mem_append.1 hcall with hold | hnew
    · exact hcalls call hold
    · rw [mem_singleton.1 hnew]
      exact ⟨hrequest, _, rfl, by simp⟩

theorem Called.succeeded {late : Bool} (hcalled : Called reg spec a (some ⟨exporter, none, late⟩) calls) :
    Fits reg spec calls (.between a.rest exporter) := by
  have hsequence := hcalled.sequence
  cases hcalled with
  | @oci failures request hstep hrest hcalls hrequest =>
    exact .inr (.inl ⟨hrest, failures, _, rfl, hcalls, hrequest, _, rfl, rfl, rfl⟩)
  | nydus hstep hrest hdir hdone hpins hcalls hrequest =>
    refine .inr (.inr ⟨hrest, hsequence, _, getLast?_concat, ?_, exporter, _, rfl, rfl, rfl⟩)
    obtain ⟨addr, rfl⟩ := hrequest
    rfl

end Calls

/-! ### Runs -/

theorem Advance.fits {stage stage' : Stage} {builds : List BuildCall} (hkeeps : cfg.registry.Keeps)
    (hboth : c.spec.imageType = .both) (hnamed : c.spec.ociImage ≠ [])
    (hadvance : Advance cfg c stage stage' builds) (hfits : Fits cfg.registry c.spec c.builds stage) :
    Fits cfg.registry c.spec builds stage' := by
  cases hadvance with
  | stays | abandoned => exact hfits
  | leaves => exact sequence_of_eq_nil hfits
  | starts =>
    left
    exact ⟨steps_both hboth, hfits⟩
  | logFails => exact ⟨sequence_of_eq_nil hfits, by simp [not_succeeded_of_eq_nil hfits]⟩
  | allDone exporter =>
    rcases hfits with ⟨hsteps, _⟩ | ⟨hsteps, _⟩ | ⟨_, hsequence, hsucceeded⟩
    · cases hsteps
    · cases hsteps
    · exact ⟨hsequence, by simp [hsucceeded]⟩
  | @fromContext step rest exporter hbase =>
    rcases hfits with ⟨hsteps, hbuilds⟩ | ⟨hsteps, _⟩ | ⟨hsteps, _⟩
    · cases hsteps
      refine .oci rfl rfl ?_
      rw [hbuilds]
      intro call hcall
      cases hcall
    · cases hsteps
      exact absurd (List.isEmpty_iff.1 hbase) hnamed
    · cases hsteps
  | fromImage hbase =>
    rcases hfits with ⟨hsteps, _⟩ | ⟨hsteps, hdone⟩ | ⟨hsteps, _⟩
    · cases hsteps
      cases hbase
    · cases hsteps
      exact ⟨rfl, rfl, hdone⟩
    · cases hsteps
  | @prepared step rest exporter contextDir text hcontext =>
    obtain ⟨rfl, rfl, hdone⟩ := hfits
    obtain ⟨hpins, hdir⟩ := pins_of_context hkeeps hcontext
    have htries : Tries cfg.registry c.spec
        (.first { c.spec.nydusStep with contextDir := contextDir } [] exporter) (c.builds ++ []) :=
      .nydus rfl rfl hdir hdone hpins fun call hcall => by cases hcall
    rwa [append_nil] at htries
  | prepareFails step rest exporter =>
    obtain ⟨rfl, rfl, hdone⟩ := hfits
    exact ⟨hdone.sequence, by simp [not_succeeded_of_uploaded hdone.uploaded]⟩
  | interrupted a =>
    have htries : Tries cfg.registry c.spec a c.builds := hfits
    exact ⟨htries.sequence, by simp [htries.not_succeeded]⟩
  | calls a addr => exact Tries.called hfits addr
  | returns a exporter err => exact ⟨c.ctx.isSome, Called.finish hfits _⟩
  | reports a exporter err =>
    obtain ⟨late, hcalled⟩ := hfits
    cases err with
    | none => exact ⟨late, hcalled⟩
    | some text => exact hcalled.failed
  | failsOver a exporter addr text =>
    obtain ⟨late, hcalled⟩ := hfits
    exact hcalled.failed.again rfl rfl
  | succeeds a exporter =>
    obtain ⟨late, hcalled⟩ := hfits
    exact hcalled.succeeded
  | retries a exporter text => exact Tries.again hfits rfl rfl
  | fails a exporter text hstatus =>
    have htries : Tries cfg.registry c.spec a c.builds := hfits
    exact ⟨htries.sequence, by simp [hstatus, htries.not_succeeded]⟩
  | finishes status => exact hfits.1

theorem Fits.sequence {builds : List BuildCall} {stage : Stage} (hfits : Fits reg spec builds stage) :
    Sequence reg spec builds := by
  cases stage with
  | waiting => exact sequence_of_eq_nil hfits
  | between steps exporter =>
    rcases hfits with ⟨_, hbuilds⟩ | ⟨_, hdone⟩ | ⟨_, hsequence, _⟩
    · exact sequence_of_eq_nil hbuilds
    · exact hdone.sequence
    · exact hsequence
  | preparing step rest exporter => exact hfits.2.2.sequence
  | trying a => exact Tries.sequence hfits
  | building a => exact Called.sequence hfits
  | built a exporter err =>
    obtain ⟨late, hcalled⟩ := hfits
    exact hcalled.sequence
  | tried a exporter err =>
    cases err with
    | none =>
      obtain ⟨late, hcalled⟩ := hfits
      exact hcalled.sequence
    | some text => exact Tries.sequence hfits
  | finishing status => exact hfits.1
  | ended => exact hfits

def Cell.Tracked (cfg : Config) (c : Cell) : Prop :=
  c.spec.imageType = .both → c.spec.ociImage ≠ [] →
    Fits cfg.registry c.spec c.builds c.pc.stage ∧ Reports NydusSucceeded c

theorem CellStep.spec_eq {a : Action} {i : Nat} {c' : Cell} (hstep : CellStep cfg s a i c c') :
    c'.spec = c.spec := by
  cases hstep with
  | framed hspec => exact hspec
  | queued | reaped => rfl
  | handled | moved => exact onCell_spec _ _ _

theorem CellStep.fits {a : Action} {i : Nat} {c' : Cell} (hkeeps : cfg.registry.Keeps)
    (hboth : c.spec.imageType = .both) (hnamed : c.spec.ociImage ≠ []) (hstep : CellStep cfg s a i c c')
    (hfits : Fits cfg.registry c.spec c.builds c.pc.stage) :
    Fits cfg.registry c.spec c'.builds c'.pc.stage := by
  cases hstep with
  | framed hspec hrecord hstored hpc hbuilds =>
    rw [hpc, hbuilds]
    exact hfits
  | @queued pc hbefore hafter =>
    have hwaiting : c.pc.stage = .waiting := by
      rcases hbefore with hpc | hpc <;> rw [hpc] <;> rfl
    rw [hwaiting] at hfits
    rcases hafter with rfl | rfl | rfl <;> exact hfits
  | handled hhandler hid hnext =>
    dsimp only
    rw [hnext.builds]
    exact hfits
  | moved _ hcontrol => exact (control_next hcontrol).advances.fits hkeeps hboth hnamed hfits
  | reaped => exact hfits

structure TwoFormats (cfg : Config) (addrs : List Pool.BuildkitAddr) (addrConcurrency : Nat) (s : State) :
    Prop where
  run : ∃ as, Runs.exec (step cfg) (start addrs addrConcurrency) as = some s
  steady : Steady s
  onlyCancel : OnlyCancel s
  cells : ∀ (i : Nat) (c : Cell), s.cells[i]? = some c → c.Tracked cfg

theorem tracked_create (spec : TaskSpec) (now : Nat) : (Cell.create spec now).Tracked cfg := by
  intro _ _
  refine ⟨rfl, ⟨?_, ?_, ?_⟩⟩
  · intro hstored
    cases hstored
  · intro _
    simp [Cell.create, Record.created]
  · intro hended
    cases hended

theorem TwoFormats.step {addrs : List Pool.BuildkitAddr} {addrConcurrency : Nat} {s' : State} {a : Action}
    (hkeeps : cfg.registry.Keeps) (hinv : TwoFormats cfg addrs addrConcurrency s)
    (hstep : step cfg s a = some s') : TwoFormats cfg addrs addrConcurrency s' := by
  obtain ⟨as, hrun⟩ := hinv.run
  have hsound := sound_run hrun
  have heffect := step_effect hstep
  refine ⟨reached_step hinv.run hstep, steady_step hsound hinv.steady heffect,
    onlyCancel_step hinv.onlyCancel heffect, ?_⟩
  · intro i c' hcell'
    rcases cellStep_of_effect hsound.admitted heffect hcell' with ⟨c, hcell, hstep⟩ | ⟨_, hcreated⟩
    · intro hboth hnamed
      rw [hstep.spec_eq] at hboth hnamed ⊢
      obtain ⟨hfits, hreports⟩ := hinv.cells i c hcell hboth hnamed
      refine ⟨hstep.fits hkeeps hboth hnamed hfits, ?_⟩
      refine hreports.step hsound.admitted hsound.accounted hinv.steady hinv.onlyCancel hcell hstep ?_
      intro status hstage
      rw [hstage] at hfits
      exact hfits.2
    · rw [hcreated]
      exact tracked_create _ _

theorem twoFormats_run {addrs : List Pool.BuildkitAddr} {addrConcurrency : Nat} {as : List Action}
    (hkeeps : cfg.registry.Keeps) (hrun : Runs.exec (step cfg) (start addrs addrConcurrency) as = some s) :
    TwoFormats cfg addrs addrConcurrency s := by
  refine Runs.exec_invariant (step cfg) (fun s a s' hinv hstep => TwoFormats.step hkeeps hinv hstep) ?_ hrun
  exact ⟨⟨[], rfl⟩, steady_start addrs addrConcurrency, by simp [OnlyCancel, start], by simp [start]⟩

/-- The calls of a task of type `both` whose image has a name. -/
theorem both_formats_in_order {addrs : List Pool.BuildkitAddr} {addrConcurrency : Nat} {as : List Action}
    {s : State} (hkeeps : cfg.registry.Keeps)
    (hrun : Runs.exec (step cfg) (start addrs addrConcurrency) as = some s) {i : Nat}
    (hcell : s.cells[i]? = some c) (hboth : c.spec.imageType = .both) (hnamed : c.spec.ociImage ≠ []) :
    Sequence cfg.registry c.spec c.builds ∧ (c.record.status = .succeeded → NydusSucceeded c.builds) ∧
    (c.pc = .returned → (c.record.status = .succeeded ↔ NydusSucceeded c.builds ∧ c.record.status ≠ .canceled)) := by
  obtain ⟨hfits, hreports⟩ := (twoFormats_run hkeeps hrun).cells i c hcell hboth hnamed
  have hsucceeded : c.record.status = .succeeded → NydusSucceeded c.builds := by
    intro hstatus
    by_cases hended : c.pc.stage = .ended
    · rcases hreports.ended hended with hcanceled | ⟨_, hiff⟩
      · rw [hstatus] at hcanceled
        cases hcanceled
      · exact hiff.1 hstatus
    · exact absurd hstatus (hreports.unfinished hended).1
  refine ⟨hfits.sequence, hsucceeded, ?_⟩
  intro hpc
  have hended : c.pc.stage = .ended := by
    rw [hpc]
    rfl
  constructor
  · intro hstatus
    exact ⟨hsucceeded hstatus, by simp [hstatus]⟩
  · rintro ⟨hnydus, hstatus⟩
    rcases hreports.ended hended with hcanceled | ⟨_, hiff⟩
    · exact absurd hcanceled hstatus
    · exact hiff.2 hnydus

/-! ### Two tasks -/

def lineRegistry : Registry where
  parseDigest := .ok
  parseNormalizedNamed := .ok
  pin := fun name digest =>
    if 0x0A ∈ name ++ ascii "@" ++ digest then .error (ascii "invalid reference format")
    else .ok (name ++ ascii "@" ++ digest)

theorem lineRegistry_keeps : lineRegistry.Keeps := by
  refine ⟨fun h => (Except.ok.inj h).symm, ?_⟩
  intro named digest text hpin
  simp only [lineRegistry] at hpin
  split_ifs at hpin with hline
  cases hpin
  exact ⟨⟨named, rfl⟩, hline⟩

def twoFormatConfig : Config := { sampleConfig with registry := lineRegistry }

def twoFormatTask : TaskSpec :=
  { sampleTask with imageType := .both, target := ascii "app", buildArgs := [(ascii "VERSION", ascii "1")] }

def sampleExporter : Exporter := [(exporterImageDigestKey, ascii "sha256:9f86d081884c7d65")]

def twoFormatRun (task : TaskSpec) (exporter : Exporter) (n : Nat) : List Action :=
  [.create task, .handler 0 false] ++ List.replicate 9 (.task 0 .go) ++ [.task 0 (.result exporter none)] ++
    List.replicate n (.task 0 .go) ++ [.task 0 (.result [] none)] ++ List.replicate 9 (.task 0 .go)

theorem both_formats_in_order_sample : ∃ s c,
    Runs.exec (step twoFormatConfig) sampleStart (twoFormatRun twoFormatTask sampleExporter 12) = some s ∧
    s.cells[0]? = some c ∧ c.spec.imageType = .both ∧ c.spec.ociImage ≠ [] ∧ c.builds.length = 2 ∧
    Sequence lineRegistry c.spec c.builds ∧
    (c.record.status = .succeeded ↔ NydusSucceeded c.builds ∧ c.record.status ≠ .canceled) := by
  have hruns : (Runs.exec (step twoFormatConfig) sampleStart
      (twoFormatRun twoFormatTask sampleExporter 12)).bind (fun s => (s.cells[0]?).map fun c =>
        (c.spec.imageType, c.spec.ociImage.isEmpty, c.builds.length, c.pc)) =
      some (.both, false, 2, .returned) := by decide +kernel
  obtain ⟨s, hrun, hs⟩ := Option.bind_eq_some_iff.1 hruns
  obtain ⟨c, hcell, hc⟩ := Option.map_eq_some_iff.1 hs
  simp only [Prod.mk.injEq] at hc
  obtain ⟨hboth, hempty, hlength, hpc⟩ := hc
  have hnamed : c.spec.ociImage ≠ [] := List.isEmpty_eq_false_iff.1 hempty
  obtain ⟨hsequence, _, hstatus⟩ := both_formats_in_order lineRegistry_keeps hrun hcell hboth hnamed
  exact ⟨s, c, hrun, hcell, hboth, hnamed, hlength, hsequence, hstatus hpc⟩

theorem Sequence.nydus_target {calls : List BuildCall} {call : BuildCall} (hsequence : Sequence reg spec calls)
    (hcall : call ∈ calls) (hformat : call.request.format = .nydus) : call.request.target = [] := by
  obtain ⟨ocis, nyduses, rfl, hocis, _, _, hnyduses⟩ := hsequence
  rcases mem_append.1 hcall with hoci | hnydus
  · obtain ⟨addr, hrequest⟩ := hocis call hoci
    rw [hrequest] at hformat
    cases hformat
  · obtain ⟨_, _, contextDir, _, _, _, hrequests⟩ := hnyduses (ne_nil_of_mem hnydus)
    obtain ⟨addr, hrequest⟩ := hrequests call hnydus
    rw [hrequest]

def suffixTask : TaskSpec := { twoFormatTask with image := ascii "_nydus_v3", routedTarget := [] }

def suffixRequest (format : Format) : BuildRunRequest :=
  ⟨suffixTask.contextDir, ascii "tcp://10.0.0.1:9094", [], format, suffixTask.target, false,
    suffixTask.buildArgs⟩

theorem suffix_builds_uploaded_context : ∃ s c,
    Runs.exec (step twoFormatConfig) sampleStart (twoFormatRun suffixTask [] 11) = some s ∧
    s.cells[0]? = some c ∧ c.spec.imageType = .both ∧ c.record.status = .succeeded ∧
    c.builds.map BuildCall.request = [suffixRequest .oci, suffixRequest .nydus] ∧
    ¬Sequence lineRegistry c.spec c.builds := by
  have hruns : (Runs.exec (step twoFormatConfig) sampleStart (twoFormatRun suffixTask [] 11)).bind
      (fun s => (s.cells[0]?).map fun c =>
        (c.spec.imageType, c.record.status, c.builds.map BuildCall.request)) =
      some (.both, .succeeded, [suffixRequest .oci, suffixRequest .nydus]) := by decide +kernel
  obtain ⟨s, hrun, hs⟩ := Option.bind_eq_some_iff.1 hruns
  obtain ⟨c, hcell, hc⟩ := Option.map_eq_some_iff.1 hs
  simp only [Prod.mk.injEq] at hc
  obtain ⟨hboth, hstatus, hbuilds⟩ := hc
  refine ⟨s, c, hrun, hcell, hboth, hstatus, hbuilds, ?_⟩
  intro hsequence
  have hmem : suffixRequest .nydus ∈ c.builds.map BuildCall.request := by
    rw [hbuilds]
    exact List.mem_cons_of_mem _ (List.mem_singleton.2 rfl)
  obtain ⟨call, hcall, hrequest⟩ := List.mem_map.1 hmem
  have htarget := hsequence.nydus_target hcall (by rw [hrequest]; rfl)
  rw [hrequest] at htarget
  exact absurd htarget (by decide)

end BuildkitService.Daemon
