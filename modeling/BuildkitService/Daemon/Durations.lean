import BuildkitService.Daemon.Atomic
import BuildkitService.Daemon.Machine

/-!
# Durations of a task

The create handler takes the time limit and the retry interval of a task in seconds, as integers of
64 bits.
-/

namespace BuildkitService.Daemon

open Strings Prog

/-! ### Seconds in 64 bits -/

def maxSeconds : Int := 9223372036

theorem toInt_seconds (n : Int) : (seconds n).toInt = (n * 1000000000).bmod (2 ^ 64) := by
  have hfactor : (1000000000 : Int64).toInt = 1000000000 := by decide
  rw [seconds, Int64.toInt_mul, Int64.toInt_ofInt, hfactor]
  exact Int.bmod_mul_bmod

theorem seconds_lt (n : Int) : (seconds n).toInt < 2 ^ 63 := Int64.toInt_lt _

variable {n : Int} {spec : TaskSpec}

theorem seconds_exact (hn : 0 ≤ n) (hle : n ≤ maxSeconds) : (seconds n).toInt = n * 1000000000 := by
  have hbound : n ≤ 9223372036 := hle
  rw [toInt_seconds, Int.bmod_eq_of_le] <;> omega

theorem seconds_lt_of_lt (hlt : maxSeconds < n) : (seconds n).toInt < n * 1000000000 := by
  have hbound : 9223372036 < n := hlt
  have hmax := seconds_lt n
  omega

theorem seconds_exact_iff (hn : 0 ≤ n) : (seconds n).toInt = n * 1000000000 ↔ n ≤ maxSeconds := by
  refine ⟨fun hexact => ?_, seconds_exact hn⟩
  by_contra hlt
  have hless := seconds_lt_of_lt (Int.not_le.1 hlt)
  omega

/-! ### The view of a task -/

structure BuildTaskView where
  id : Bytes
  status : BuildStatus
  image : Bytes
  mode : Bytes
  routedTarget : Bytes
  imageType : ImageType
  target : Bytes
  buildkitAddr : Bytes
  nodeIP : Bytes
  retry : Nat
  retryIntervalSeconds : Int64
  createdAt : Nat
  startedAt : Option Nat
  finishedAt : Option Nat
  error : Bytes
  deriving DecidableEq, Repr

def viewTask (id : Bytes) (createdAt : Nat) (spec : TaskSpec) (r : Record) : BuildTaskView where
  id := id
  status := r.status
  image := spec.image
  mode := spec.mode
  routedTarget := spec.routedTarget
  imageType := spec.imageType
  target := spec.target
  buildkitAddr := r.buildkitAddr
  nodeIP := r.nodeIP
  retry := spec.retry
  retryIntervalSeconds := spec.retryInterval / 1000000000
  createdAt := createdAt
  startedAt := r.startedAt
  finishedAt := r.finishedAt
  error := r.error

theorem tdiv_second (n : Int) :
    n.tdiv 1000000000 = n / 1000000000 + if 0 ≤ n ∨ 1000000000 ∣ n then 0 else 1 := Int.tdiv_eq_ediv

theorem toInt_div_second (d : Int64) : (d / 1000000000).toInt = d.toInt.tdiv 1000000000 := by
  have hfactor : (1000000000 : Int64).toInt = 1000000000 := by decide
  have hlow := Int64.le_toInt d
  have hhigh := Int64.toInt_lt d
  rw [Int64.toInt_div, hfactor, tdiv_second, Int.bmod_eq_of_le] <;> split <;> omega

theorem viewTask_exact_iff (hn : 0 ≤ n) (hinterval : spec.retryInterval = seconds n) (id : Bytes)
    (createdAt : Nat) (r : Record) :
    (viewTask id createdAt spec r).retryIntervalSeconds.toInt = n ↔ n ≤ maxSeconds := by
  have hview : (viewTask id createdAt spec r).retryIntervalSeconds = seconds n / 1000000000 := by
    rw [← hinterval]
    rfl
  rw [hview, toInt_div_second]
  refine ⟨fun hreport => ?_, fun hle => ?_⟩
  · by_contra hlt
    have hbound : 9223372036 < n := Int.not_le.1 hlt
    have hmax := seconds_lt n
    rw [tdiv_second] at hreport
    split at hreport <;> omega
  · rw [seconds_exact hn hle]
    exact Int.mul_tdiv_cancel _ (by decide)

/-! ### The wait before a retry -/

def GoesOn (cfg : Config) (c : Cell) (a : Attempt) (sh sh' : Shared) : Prop :=
  control cfg sh { c with pc := .retryTimer a } .go = some (.skip, .markQueued a) ∨
    ∃ deadline, control cfg sh { c with pc := .retryTimer a } .go = some (.skip, .retryWait a deadline) ∧
      control cfg sh' { c with pc := .retryWait a deadline } .go = some (.skip, .markQueued a)

def WaitsFor (spec : TaskSpec) (duration : Int) : Prop :=
  ∀ (cfg : Config) (c : Cell) (a : Attempt) (sh sh' : Shared), c.spec = spec → sh.clock ≤ sh'.clock →
    (GoesOn cfg c a sh sh' ↔ (sh.clock : Int) + duration ≤ sh'.clock)

theorem goesOn_iff {cfg : Config} {c : Cell} {a : Attempt} {sh sh' : Shared} (hclock : sh.clock ≤ sh'.clock) :
    GoesOn cfg c a sh sh' ↔ sh.clock + c.spec.retryInterval.toNatClampNeg ≤ sh'.clock := by
  by_cases hnone : c.spec.retryInterval ≤ 0
  · have hzero : c.spec.retryInterval.toNatClampNeg = 0 :=
      Int.toNat_of_nonpos (Int64.le_iff_toInt_le.1 hnone)
    have hnow : control cfg sh { c with pc := .retryTimer a } .go = some (.skip, .markQueued a) := by
      simp only [control, if_pos hnone]
    rw [hzero]
    exact iff_of_true (.inl hnow) hclock
  · have hlater : control cfg sh { c with pc := .retryTimer a } .go =
        some (.skip, .retryWait a (sh.clock + c.spec.retryInterval.toNatClampNeg)) := by
      simp only [control, if_neg hnone]
    rw [GoesOn, hlater]
    constructor
    · rintro (hnow | ⟨deadline, hwait, hfires⟩)
      · cases hnow
      · cases hwait
        simp only [control] at hfires
        split at hfires
        · rename_i hfired
          exact hfired
        · cases hfires
    · intro hfired
      refine .inr ⟨_, rfl, ?_⟩
      simp only [control, if_pos hfired]

theorem waitsFor_iff {duration : Int} :
    WaitsFor spec duration ↔ (spec.retryInterval.toNatClampNeg : Int) = max duration 0 := by
  constructor
  · intro hwaits
    -- Two tasks that come at time zero: one is seen when its timer fires, one when the wait should be over.
    have hat : ∀ clock : Nat, spec.retryInterval.toNatClampNeg ≤ clock ↔ duration ≤ clock := by
      intro clock
      have hiff := hwaits sampleConfig (.create spec 0) (.first ⟨[], .oci, [], []⟩ [] [])
        { sampleStart.shared with clock := 0 } { sampleStart.shared with clock := clock } rfl (Nat.zero_le _)
      rw [goesOn_iff (Nat.zero_le _)] at hiff
      simpa [Cell.create] using hiff
    have hfires := (hat spec.retryInterval.toNatClampNeg).1 le_rfl
    have hover := (hat duration.toNat).2 (Int.self_le_toNat duration)
    omega
  · intro hinterval cfg c a sh sh' hspec hclock
    rw [goesOn_iff hclock, hspec]
    omega

theorem waitsFor_exact_iff (hn : 0 ≤ n) (hinterval : spec.retryInterval = seconds n) :
    WaitsFor spec (n * 1000000000) ↔ n ≤ maxSeconds := by
  have hclamp : (spec.retryInterval.toNatClampNeg : Int) = max (seconds n).toInt 0 := by
    rw [hinterval]
    exact Int.toNat_eq_max _
  have hzero : n = 0 → (seconds n).toInt = 0 := by
    rintro rfl
    decide
  rw [waitsFor_iff, hclamp, ← seconds_exact_iff hn]
  omega

/-! ### The deadline -/

structure Context where
  opened : Nat
  deadline : Option Int
  deriving DecidableEq, Repr

structure Opening where
  clock : Nat
  form : Option Form
  contexts : Nat → Option Context

structure Later (s s' : Opening) : Prop where
  clock : s.clock ≤ s'.clock
  contexts : ∀ ctx c, s.contexts ctx = some c → s'.contexts ctx = some c

def Opens (s : Opening) : (o : ServerOp) → ServerRes o → Opening → Prop
  | .parseMultipartForm _, r, s' => s'.form = r.toOption ∧ Later s s'
  | .newContext _ timeout, ctx, s' =>
      s'.contexts ctx = some ⟨s.clock, timeout.map fun d => s.clock + d.toInt⟩ ∧ s'.form = s.form ∧ Later s s'
  | _, _, s' => s'.form = s.form ∧ Later s s'

def opening : Prog.Rules ServerOp ServerRes Opening where
  sem := Opens
  guard _ _ := True
  during _ := True

def ServerOp.quiet : ServerOp → Bool
  | .parseMultipartForm _ | .newContext _ _ => false
  | _ => true

def Form.timeout (form : Form) : Except Bytes Int := parseOptionalPositiveInt (form.formValue (ascii "timeout_seconds"))

def Form.retryInterval (form : Form) : Except Bytes Nat :=
  parseOptionalNonNegativeInt
    (firstNonEmpty [form.formValue (ascii "retry-interval"), form.queryParam (ascii "retry-interval")])
    (ascii "retry-interval") defaultRetryInterval

def TimeLimited (start : Nat) (form : Form) (ctx : Nat) (s : Opening) : Prop :=
  ∀ n, form.timeout = .ok n → 0 < n → ∃ opened, start ≤ opened ∧ opened ≤ s.clock ∧
    s.contexts ctx = some ⟨opened, some (opened + (seconds n).toInt)⟩

structure Reads (start : Nat) (form : Form) (s : Opening) : Prop where
  clock : start ≤ s.clock
  form : s.form = some form

variable {cfg : CreateConfig} {lib : CreateLib} {start ctx maxRequestBytes : Nat} {form : Form} {s s' : Opening} {α β : Type}
  {contextParentDir taskDir : Bytes} {parsed : Parsed}

theorem Opens.quiet {o : ServerOp} {r : ServerRes o} (hopens : Opens s o r s') (hquiet : o.quiet = true) :
    s'.form = s.form ∧ Later s s' := by
  cases o with
  | parseMultipartForm | newContext => cases hquiet
  | _ => exact hopens

theorem Reads.later (hreads : Reads start form s) (hform : s'.form = s.form) (hlater : Later s s') :
    Reads start form s' := ⟨hreads.clock.trans hlater.clock, hform.trans hreads.form⟩

theorem TimeLimited.later (hlimited : TimeLimited start form ctx s) (hlater : Later s s') :
    TimeLimited start form ctx s' := by
  intro n hn hpos
  obtain ⟨opened, hstart, hnow, hctx⟩ := hlimited n hn hpos
  exact ⟨opened, hstart, hnow.trans hlater.clock, hlater.contexts _ _ hctx⟩

theorem holds_quiet {p : ServerProg α} (honly : Only (fun o => o.quiet = true) p) (hreads : Reads start form s) :
    Holds opening p s fun _ s' => Reads start form s' :=
  honly.holds (fun _ _ => trivial) (fun _ _ _ _ => trivial)
    (fun _ _ _ _ hreads hquiet hopens => hreads.later (hopens.quiet hquiet).1 (hopens.quiet hquiet).2) hreads

section Quiet

theorem quiet_onFiles (p : Files.FsProg α) : Only (fun o => o.quiet = true) (onFiles p) :=
  only_onFiles (fun _ => rfl) p

theorem quiet_orRefuse {status : GoError → Nat} {p : ServerProg (Except GoError α)}
    (hp : Only (fun o => o.quiet = true) p) : Only (fun o => o.quiet = true) (orRefuse taskDir status p) := by
  refine hp.bind fun r => ?_
  cases r with
  | ok a => exact only_pure _
  | error err => exact (quiet_onFiles _).bind fun _ => only_pure _

theorem quiet_routeImage {image digest : Bytes} :
    Only (fun o => o.quiet = true) (routeImage cfg lib.routing taskDir image digest) := by
  rw [routeImage]
  cases cfg.router with
  | none => exact (quiet_onFiles _).bind fun _ => only_pure _
  | some router => exact quiet_orRefuse (only_pure _)

theorem quiet_prepareContext :
    Only (fun o => o.quiet = true) (prepareContext cfg lib taskDir contextParentDir parsed) := by
  refine (quiet_orRefuse (quiet_onFiles _)).attempt fun contextDir => ?_
  refine (quiet_orRefuse (only_sourceContextContentHash (fun _ => rfl) (fun _ => rfl) _ _)).attempt fun key => ?_
  refine (quiet_orRefuse (quiet_onFiles _)).attempt fun _ => ?_
  refine (quiet_orRefuse (quiet_onFiles _)).attempt fun image => ?_
  dsimp only
  split_ifs
  · exact quiet_routeImage.attempt fun routedTarget => only_pure _
  · exact only_pure _

theorem quiet_stageFiles {remaining : Nat} : Only (fun o => o.quiet = true)
      (stageFiles cfg lib taskDir contextParentDir parsed maxRequestBytes remaining) := by
  refine (quiet_orRefuse (quiet_onFiles _)).attempt fun _ => ?_
  refine (quiet_orRefuse (quiet_onFiles _)).attempt fun zipInfo => ?_
  split_ifs
  · exact (quiet_onFiles _).bind fun _ => only_pure _
  · refine (quiet_orRefuse (only_extractArchive (fun _ => rfl) fun _ => rfl)).attempt fun _ => ?_
    exact quiet_prepareContext

end Quiet

structure Scheduled (start : Nat) (form : Form) (ctx : Nat) (interval : Int64) (s : Opening) : Prop where
  reads : Reads start form s
  limited : TimeLimited start form ctx s
  interval : ∃ n : Nat, form.retryInterval = .ok n ∧ interval = seconds n

theorem Scheduled.later {interval : Int64} (hscheduled : Scheduled start form ctx interval s)
    (hform : s'.form = s.form) (hlater : Later s s') : Scheduled start form ctx interval s' :=
  ⟨hscheduled.reads.later hform hlater, hscheduled.limited.later hlater, hscheduled.interval⟩

def Schedules (start : Nat) (form : Form) (r : Except Refusal Scheduling) (s : Opening) : Prop :=
  ∀ scheduling, r = .ok scheduling → Scheduled start form scheduling.ctx scheduling.retryInterval s

theorem holds_readRetries_opening (hreads : Reads start form s) (hlimited : TimeLimited start form ctx s) :
    Holds opening (readRetries taskDir form ctx) s (Schedules start form) := by
  have hrefused : ∀ err, Holds opening (refuseParameter taskDir ctx err) s (Schedules start form) := by
    intro err
    refine ⟨trivial, trivial, fun _ s₁ _ => ⟨trivial, trivial, fun _ s₂ _ => ?_⟩⟩
    exact holds_pure trivial fun _ => nofun
  rw [readRetries]
  split
  · exact hrefused _
  · split
    · exact hrefused _
    · rename_i interval hinterval
      refine holds_pure trivial fun scheduling hok => ?_
      cases hok
      exact ⟨hreads, hlimited, interval, hinterval, rfl⟩

theorem holds_openContext_opening {sync : Bool} (hreads : Reads start form s) :
    Holds opening (openContext taskDir form sync) s (Schedules start form) := by
  unfold openContext
  refine ⟨trivial, trivial, ?_⟩
  rintro ctx s₁ ⟨_, hform₁, hlater₁⟩
  have hreads₁ := hreads.later hform₁ hlater₁
  dsimp only [Prog.bind]
  cases htimeout : parseOptionalPositiveInt (form.formValue (ascii "timeout_seconds")) with
  | error err =>
    refine ⟨trivial, trivial, fun _ s₂ _ => ⟨trivial, trivial, fun _ s₃ _ => ?_⟩⟩
    exact holds_pure trivial fun _ hok => by cases hok
  | ok timeout =>
    dsimp only
    by_cases hpositive : 0 < timeout
    · rw [if_pos hpositive]
      refine ⟨trivial, trivial, ?_⟩
      rintro _ s₂ ⟨hform₂, hlater₂⟩
      have hreads₂ := hreads₁.later hform₂ hlater₂
      refine ⟨trivial, trivial, ?_⟩
      rintro ctx' s₃ ⟨hctx, hform₃, hlater₃⟩
      refine holds_readRetries_opening (hreads₂.later hform₃ hlater₃) ?_
      intro n hn _
      rw [Form.timeout, htimeout] at hn
      cases hn
      exact ⟨s₂.clock, hreads₂.clock, hlater₃.clock, hctx⟩
    · rw [if_neg hpositive]
      refine holds_readRetries_opening hreads₁ ?_
      intro n hn hpos
      rw [Form.timeout, htimeout] at hn
      cases hn
      exact absurd hpos hpositive

theorem holds_trivial (p : ServerProg α) : Holds opening p s fun _ _ => True :=
  (only_of_forall (fun _ => trivial) p).holds (P := fun _ => True) (I := fun _ => True) (fun _ _ => trivial)
    (fun _ _ _ _ => trivial) (fun _ _ _ _ _ _ _ => trivial) trivial

def Accepts (start : Nat) (r : Except Refusal NewTask) (s : Opening) : Prop :=
  ∀ task, r = .ok task → ∃ form, Scheduled start form task.ctx task.spec.retryInterval s

theorem holds_publish_opening {task : NewTask} (hscheduled : Scheduled start form task.ctx task.spec.retryInterval s) :
    Holds opening (publish cfg task) s (Accepts start) := by
  refine ⟨trivial, trivial, ?_⟩
  rintro _ s₁ ⟨hform₁, hlater₁⟩
  have hscheduled₁ := hscheduled.later hform₁ hlater₁
  split_ifs
  · refine ⟨trivial, trivial, ?_⟩
    rintro r s₂ ⟨hform₂, hlater₂⟩
    cases r with
    | ok a =>
      refine holds_pure trivial fun accepted hok => ?_
      cases hok
      exact ⟨form, hscheduled₁.later hform₂ hlater₂⟩
    | error err =>
      refine (holds_trivial (cancel task.ctx)).bind fun _ s₃ _ _ => ?_
      refine (holds_trivial (finishTask task.id .canceled contextCanceled)).bind fun _ s₄ _ _ => ?_
      refine (holds_trivial (closeDone task.id)).bind fun _ s₅ _ _ => ?_
      exact (holds_trivial (cleanupTask task.id)).bind fun _ s₆ _ _ => holds_pure trivial fun _ => nofun
  · refine ⟨trivial, trivial, ?_⟩
    rintro _ s₂ ⟨hform₂, hlater₂⟩
    refine holds_pure trivial fun accepted hok => ?_
    cases hok
    exact ⟨form, hscheduled₁.later hform₂ hlater₂⟩

theorem holds_createIn_opening {id : Bytes} {remaining : Nat} (hreads : Reads start parsed.form s) :
    Holds opening (createIn cfg lib id taskDir contextParentDir parsed maxRequestBytes remaining) s (Accepts start) := by
  refine (holds_quiet quiet_stageFiles hreads).attempt ?_ fun e _ _ _ _ => nofun
  intro prepared s₁ hreads₁ _
  refine (holds_openContext_opening hreads₁).attempt ?_ fun e _ _ _ _ => nofun
  intro scheduling s₂ hschedules _
  exact holds_publish_opening (hschedules scheduling rfl)

theorem readForm_form (hread : readForm cfg form = .ok parsed) : parsed.form = form := by
  rw [readForm] at hread
  split at hread
  · cases hread
  · split at hread
    · cases hread
    · split at hread
      · cases hread
      · cases hread
        rfl

theorem holds_parseRequest_opening (hstart : start ≤ s.clock) :
    Holds opening (parseRequest cfg maxRequestBytes) s fun r s' =>
      ∀ parsed : Parsed, r = .ok parsed → Reads start parsed.form s' := by
  refine ⟨trivial, trivial, ?_⟩
  rintro r s₁ ⟨hform, hlater⟩
  cases r with
  | error err =>
    show Holds opening (if err.is = some .maxBytes then _ else _) s₁ _
    split_ifs
    · exact holds_pure trivial fun _ => nofun
    · exact holds_pure trivial fun _ => nofun
  | ok form =>
    refine holds_pure trivial fun parsed hread => ⟨hstart.trans hlater.clock, ?_⟩
    rw [readForm_form hread]
    exact hform

theorem holds_createBuild_opening (hstart : start ≤ s.clock) :
    Holds opening (createBuild cfg lib) s (Accepts start) := by
  have hlimits : Only (fun o => o.quiet = true) (checkLimits cfg) := only_checkLimits rfl fun _ => rfl
  have hclock : Holds opening (checkLimits cfg) s fun _ s' => start ≤ s'.clock :=
    hlimits.holds (fun _ _ => trivial) (fun _ _ _ _ => trivial)
      (fun _ _ _ _ hle hquiet hopens => le_trans hle (hopens.quiet hquiet).2.clock) hstart
  refine hclock.attempt ?_ fun e _ _ _ _ => nofun
  intro remaining s₁ hstart₁ _
  refine (holds_parseRequest_opening hstart₁).attempt ?_ fun e _ _ _ _ => nofun
  intro parsed s₂ hparsed _
  have hreads₂ := hparsed parsed rfl
  refine ⟨trivial, trivial, ?_⟩
  rintro (err | data) s₃ ⟨hform₃, hlater₃⟩
  · exact holds_pure trivial fun _ => nofun
  · have hreads₃ := hreads₂.later hform₃ hlater₃
    refine ⟨trivial, trivial, ?_⟩
    rintro (err | made) s₄ ⟨hform₄, hlater₄⟩
    · exact holds_pure trivial fun _ => nofun
    · exact holds_createIn_opening (hreads₃.later hform₄ hlater₄)

theorem scheduled_of_exec {task : NewTask}
    (hexec : Exec Opens (handleCreateBuild cfg lib) s (.accepted task) s') :
    ∃ form, Scheduled s.clock form task.ctx task.spec.retryInterval s' := by
  have hholds : Holds opening (handleCreateBuild cfg lib) s fun answer s' =>
      ∀ task, answer = .accepted task → ∃ form, Scheduled s.clock form task.ctx task.spec.retryInterval s' := by
    refine ⟨trivial, trivial, ?_⟩
    rintro _ s₁ ⟨_, hlater₁⟩
    refine (holds_createBuild_opening hlater₁.clock).bind ?_
    intro created s₂ haccepts _
    refine ⟨trivial, trivial, ?_⟩
    rintro _ s₃ ⟨hform₃, hlater₃⟩
    cases created with
    | error refusal => exact holds_pure trivial fun _ => nofun
    | ok task =>
      refine holds_pure trivial fun accepted hanswer => ?_
      cases hanswer
      obtain ⟨form, hscheduled⟩ := haccepts task rfl
      exact ⟨form, hscheduled.later hform₃ hlater₃⟩
  obtain ⟨_, rfl, _, hpost⟩ := hholds.exec (R := Eq)
    (fun t s o r t' heq _ hsem => ⟨t', heq ▸ hsem, rfl⟩) hexec rfl
  exact hpost task rfl

/-- The durations of a task are exact up to `maxSeconds`. -/
theorem durations_exact {task : NewTask}
    (hexec : Prog.Exec Opens (handleCreateBuild cfg lib) s (.accepted task) s') :
    ∃ form, s'.form = some form ∧
      (∀ n, form.timeout = .ok n → 0 < n → ∃ (opened : Nat) (deadline : Int),
        s'.contexts task.ctx = some ⟨opened, some deadline⟩ ∧ s.clock ≤ opened ∧ opened ≤ s'.clock ∧
          (deadline = opened + n * 1000000000 ∧ opened < deadline ↔ n ≤ maxSeconds)) ∧
      ∃ n : Nat, form.retryInterval = .ok n ∧
        (WaitsFor task.spec (n * 1000000000) ↔ n ≤ maxSeconds) ∧
        ∀ id createdAt r,
          (viewTask id createdAt task.spec r).retryIntervalSeconds.toInt = n ↔ n ≤ maxSeconds := by
  obtain ⟨form, hscheduled⟩ := scheduled_of_exec hexec
  refine ⟨form, hscheduled.reads.form, ?_, ?_⟩
  · intro n hn hpos
    obtain ⟨opened, hstart, hnow, hctx⟩ := hscheduled.limited n hn hpos
    refine ⟨opened, opened + (seconds n).toInt, hctx, hstart, hnow, ?_⟩
    rw [← seconds_exact_iff hpos.le]
    omega
  · obtain ⟨n, hn, hinterval⟩ := hscheduled.interval
    have hnonneg : (0 : Int) ≤ n := Int.natCast_nonneg n
    exact ⟨n, hn, waitsFor_exact_iff hnonneg hinterval, viewTask_exact_iff hnonneg hinterval⟩

/-! ### Two requests -/

def Opening.after (s : Opening) : (o : ServerOp) → ServerRes o → Opening
  | .parseMultipartForm _, r => { s with form := r.toOption }
  | .newContext _ timeout, (ctx : Nat) => { s with
      contexts := fun other =>
        if other = ctx then some ⟨s.clock, timeout.map fun d => s.clock + d.toInt⟩ else s.contexts other }
  | _, _ => s

def respondOpening (env : Surroundings) (o : ServerOp) (t : View × Opening) : ServerRes o × (View × Opening) :=
  ((respond env 0 o t.1).1, (respond env 0 o t.1).2, t.2.after o (respond env 0 o t.1).1)

def freeContext (o : ServerOp) (t : View × Opening) : Bool :=
  match o with
  | .newContext _ _ => (t.2.contexts t.1.server.contexts.length).isNone
  | _ => true

theorem respondOpening_opens {env : Surroundings} (o : ServerOp) (t : View × Opening)
    (hfree : freeContext o t = true) :
    Opens t.2 o (respondOpening env o t).1 (respondOpening env o t).2.2 := by
  cases o with
  | parseMultipartForm maxBytes => exact ⟨rfl, le_rfl, fun _ _ hctx => hctx⟩
  | newContext sync timeout =>
    have hnone : t.2.contexts t.1.server.contexts.length = none := Option.isNone_iff_eq_none.1 hfree
    refine ⟨if_pos rfl, rfl, le_rfl, ?_⟩
    intro ctx c hctx
    refine (if_neg ?_).trans hctx
    rintro rfl
    cases hnone.symm.trans hctx
  | _ => exact ⟨rfl, le_rfl, fun _ _ hctx => hctx⟩

def sampleTimed (raw : Bytes) : Surroundings := { sampleClosed with
  form := .ok ⟨[], [(ascii "timeout_seconds", [raw]), (ascii "retry-interval", [raw]),
    (ascii "image", [ascii "r1.io/a"])], some ⟨3, .ok (), ⟨ascii "zip", none, false⟩⟩⟩
  enqueued := .ok () }

def sampleOpening : View × Opening := (sampleView, ⟨1000, none, fun _ => none⟩)

def timedRun (raw : Bytes) : Answer × (View × Opening) :=
  Prog.run (respondOpening (sampleTimed raw)) (handleCreateBuild sampleCreateConfig sampleCreateLib) sampleOpening

def timedRunAccepts (raw : Bytes) (timeout : Int) (interval : Nat) : Bool :=
  Prog.enabledRun (respondOpening (sampleTimed raw)) freeContext
      (handleCreateBuild sampleCreateConfig sampleCreateLib) sampleOpening &&
    decide (∃ task ∈ (timedRun raw).2.1.server.tasks, (timedRun raw).1 = .accepted task) &&
    (timedRun raw).2.2.form.any fun form =>
      decide (form.timeout.toOption = some timeout ∧ form.retryInterval.toOption = some interval)

theorem ok_of_toOption {ε γ : Type} {x : Except ε γ} {a : γ} (hx : x.toOption = some a) : x = .ok a := by
  cases x with
  | error e => cases hx
  | ok b =>
    cases hx
    rfl

theorem timedRun_exec {raw : Bytes} {timeout : Int} {interval : Nat}
    (haccepts : timedRunAccepts raw timeout interval = true) :
    ∃ task s' form, Exec Opens (handleCreateBuild sampleCreateConfig sampleCreateLib) sampleOpening.2
      (.accepted task) s' ∧ s'.form = some form ∧ form.timeout = .ok timeout ∧ form.retryInterval = .ok interval := by
  rw [timedRunAccepts, Bool.and_eq_true, Bool.and_eq_true, decide_eq_true_eq] at haccepts
  obtain ⟨⟨henabled, task, _, hanswer⟩, hform⟩ := haccepts
  obtain ⟨form, hsome, hparsed⟩ := (Option.any_eq_true _ _).1 hform
  obtain ⟨htimeout, hinterval⟩ := of_decide_eq_true hparsed
  have hrun : Exec (fun t o r t' => Opens t.2 o r t'.2) (handleCreateBuild sampleCreateConfig sampleCreateLib)
      sampleOpening (timedRun raw).1 (timedRun raw).2 := exec_run respondOpening_opens _ sampleOpening henabled
  have hexec := hrun.map Prod.snd fun _ _ _ _ hopens => hopens
  rw [hanswer] at hexec
  exact ⟨task, _, form, hexec, hsome, ok_of_toOption htimeout, ok_of_toOption hinterval⟩

theorem durations_exact_thirty : ∃ task s',
    Prog.Exec Opens (handleCreateBuild sampleCreateConfig sampleCreateLib) sampleOpening.2 (.accepted task) s' ∧
      (∃ opened : Nat, s'.contexts task.ctx = some ⟨opened, some (opened + 30 * 1000000000)⟩) ∧
      WaitsFor task.spec (30 * 1000000000) ∧
      (viewTask task.id 0 task.spec (.created 0)).retryIntervalSeconds.toInt = 30 := by
  have haccepts : timedRunAccepts (ascii "30") 30 30 = true := by decide +kernel
  obtain ⟨task, s', form, hexec, hform, htimeout, hinterval⟩ := timedRun_exec haccepts
  obtain ⟨form', hform', hdeadline, n, hn, hwaits, hview⟩ := durations_exact hexec
  obtain rfl : form = form' := Option.some.inj (hform.symm.trans hform')
  obtain rfl : 30 = n := Except.ok.inj (hinterval.symm.trans hn)
  obtain ⟨opened, deadline, hctx, _, _, hexact⟩ := hdeadline 30 htimeout (by decide)
  rw [(hexact.2 (by decide)).1] at hctx
  exact ⟨task, s', hexec, ⟨opened, hctx⟩, hwaits.2 (by decide), (hview _ _ _).2 (by decide)⟩

theorem durations_wrap : ∃ task s' form,
    Prog.Exec Opens (handleCreateBuild sampleCreateConfig sampleCreateLib) sampleOpening.2 (.accepted task) s' ∧
      s'.form = some form ∧ form.timeout = .ok 9223372037 ∧ form.retryInterval = .ok 9223372037 ∧
      (∃ (opened : Nat) (deadline : Int), s'.contexts task.ctx = some ⟨opened, some deadline⟩ ∧ deadline < opened) ∧
      WaitsFor task.spec 0 ∧
      (viewTask task.id 0 task.spec (.created 0)).retryIntervalSeconds.toInt = -9223372036 := by
  have haccepts : timedRunAccepts (ascii "9223372037") 9223372037 9223372037 = true := by decide +kernel
  obtain ⟨task, s', form, hexec, hform, htimeout, hinterval⟩ := timedRun_exec haccepts
  obtain ⟨form', hscheduled⟩ := scheduled_of_exec hexec
  obtain rfl : form = form' := Option.some.inj (hform.symm.trans hscheduled.reads.form)
  obtain ⟨opened, _, _, hctx⟩ := hscheduled.limited 9223372037 htimeout (by decide)
  obtain ⟨n, hn, hspec⟩ := hscheduled.interval
  obtain rfl : 9223372037 = n := Except.ok.inj (hinterval.symm.trans hn)
  have hnegative : (seconds 9223372037).toInt < 0 := by decide
  refine ⟨task, s', form, hexec, hform, htimeout, hinterval, ⟨opened, _, hctx, by omega⟩, ?_, ?_⟩
  · rw [waitsFor_iff, hspec]
    decide
  · show (task.spec.retryInterval / 1000000000).toInt = _
    rw [hspec]
    decide

end BuildkitService.Daemon
