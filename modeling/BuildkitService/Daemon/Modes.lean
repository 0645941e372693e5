import BuildkitService.Daemon.Slots
import BuildkitService.Lib.Assoc
import Mathlib.Algebra.Order.BigOperators.Group.List

/-!
# Modes within the global limit

`parseBuildModes` of `internal/builddaemon/mode_scheduler.go`.
-/

namespace BuildkitService.Daemon

open Strings Pool Ledger List

/-! ### The table of modes -/

structure BuildModeConfig where
  concurrency : Int64
  routingEnabled : Bool
  deriving DecidableEq, Repr

structure ModeMap where
  entries : List (Bytes × BuildModeConfig)
  distinct : (entries.map Prod.fst).Nodup
  deriving DecidableEq

def ModeMap.single (name : Bytes) (cfg : BuildModeConfig) : ModeMap := ⟨[(name, cfg)], by simp⟩

structure ModeTable where
  defaultMode : Bytes
  configs : ModeMap
  explicit : Bool
  deriving DecidableEq

structure ModesDecoder where
  decode : Bytes → Except Bytes ModeMap
  trailing : Bytes → Bool

def defaultBuildMode : Bytes := ascii "default_mode"

def validBuildModeName (name : Bytes) : Bool :=
  !name.isEmpty && name.all fun char =>
    0x61 ≤ char && char ≤ 0x7A || 0x41 ≤ char && char ≤ 0x5A || 0x30 ≤ char && char ≤ 0x39 ||
      char == 0x5F || char == 0x2D

def badModeName (name : Bytes) : Bytes :=
  quote name ++ ascii " must contain only letters, digits, underscores, or hyphens"

def addConcurrency (totalConcurrency : Int64) : List (Bytes × BuildModeConfig) → Except Bytes Int64
  | [] => .ok totalConcurrency
  | (name, cfg) :: entries =>
      if !validBuildModeName name then .error (ascii "build mode " ++ badModeName name)
      else if cfg.concurrency ≤ 0 then
        .error (ascii "build mode " ++ quote name ++ ascii " concurrency must be positive")
      else addConcurrency (totalConcurrency + cfg.concurrency) entries

def checkTotal (defaultMode : Bytes) (configs : ModeMap) (maxConcurrency : Int64) (total : Int64) :
    Except Bytes ModeTable :=
  if (configs.entries.lookup defaultMode).isNone then
    .error (ascii "default build mode " ++ quote defaultMode ++ ascii " is not defined in --modes-json")
  else if maxConcurrency > 0 && total > maxConcurrency then
    .error (ascii "sum of build mode concurrency (" ++ decimal total.toNatClampNeg ++
      ascii ") exceeds --max-concurrency (" ++ decimal maxConcurrency.toNatClampNeg ++ ascii ")")
  else .ok ⟨defaultMode, configs, true⟩

def parseBuildModes (decoder : ModesDecoder) (raw defaultMode : Bytes) (maxConcurrency : Int64) :
    Except Bytes ModeTable :=
  let defaultMode := if (trimSpace defaultMode).isEmpty then defaultBuildMode else trimSpace defaultMode
  if !validBuildModeName defaultMode then .error (ascii "default build mode " ++ badModeName defaultMode)
  else if (trimSpace raw).isEmpty then .ok ⟨defaultMode, .single defaultMode ⟨0, false⟩, false⟩
  else match decoder.decode raw with
    | .error err => .error (ascii "parse --modes-json: " ++ err)
    | .ok configs =>
        if decoder.trailing raw then .error (ascii "parse --modes-json: unexpected trailing JSON data")
        else if configs.entries.isEmpty then .error (ascii "--modes-json must define at least one mode")
        else (addConcurrency 0 configs.entries).bind (checkTotal defaultMode configs maxConcurrency)

def ModeMap.total (configs : ModeMap) : Int := (configs.entries.map fun e => e.2.concurrency.toInt).sum

def ModeTable.scheduled (table : ModeTable) : Option (List (Bytes × Nat)) :=
  if table.explicit then
    some ((table.configs.entries.mergeSort fun a b => !less b.1 a.1).map fun e =>
      (e.1, e.2.concurrency.toNatClampNeg))
  else none

/-! ### The sum -/

variable {entries : List (Bytes × BuildModeConfig)} {maxConcurrency : Int64} {table : ModeTable}

theorem addConcurrency_ok {t total : Int64} (hadd : addConcurrency t entries = .ok total) :
    (∀ e ∈ entries, 0 < e.2.concurrency.toInt) ∧
      total.toInt = (t.toInt + (entries.map fun e => e.2.concurrency.toInt).sum).bmod (2 ^ 64) := by
  induction entries generalizing t with
  | nil =>
    cases hadd
    refine ⟨nofun, ?_⟩
    rw [map_nil, sum_nil, Int.add_zero]
    exact (Int64.toInt_bmod total).symm
  | cons e entries ih =>
    rw [addConcurrency] at hadd
    split at hadd
    · cases hadd
    · split at hadd
      · cases hadd
      · rename_i hpositive
        obtain ⟨hrest, htotal⟩ := ih hadd
        refine ⟨?_, ?_⟩
        · rw [forall_mem_cons]
          refine ⟨?_, hrest⟩
          rw [Int64.le_iff_toInt_le] at hpositive
          exact Int.not_le.1 hpositive
        · rw [htotal, Int64.toInt_add, Int.bmod_add_bmod, map_cons, sum_cons, Int.add_assoc]

inductive Accepted (maxConcurrency : Int64) (table : ModeTable) : Prop
  | implicit (hexplicit : table.explicit = false) (htotal : table.configs.total = 0)
  | explicit {total : Int64} (hpositive : ∀ e ∈ table.configs.entries, 0 < e.2.concurrency.toInt)
      (htotal : total.toInt = table.configs.total.bmod (2 ^ 64))
      (hwithin : 0 < maxConcurrency → total.toInt ≤ maxConcurrency.toInt)

theorem accepted_of_check {defaultMode : Bytes} {configs : ModeMap} {total : Int64}
    (hadded : (∀ e ∈ configs.entries, 0 < e.2.concurrency.toInt) ∧ total.toInt = ((0 : Int64).toInt + configs.total).bmod (2 ^ 64))
    (hcheck : checkTotal defaultMode configs maxConcurrency total = .ok table) :
    Accepted maxConcurrency table := by
  obtain ⟨hpositive, htotal⟩ := hadded
  rw [Int64.toInt_zero, Int.zero_add] at htotal
  rw [checkTotal] at hcheck
  split at hcheck
  · cases hcheck
  · split at hcheck
    · cases hcheck
    · rename_i hwithin
      cases hcheck
      refine .explicit hpositive htotal fun hmax => ?_
      rw [← Int64.le_iff_toInt_le]
      simpa [hmax] using hwithin

theorem accepted_of_parse {decoder : ModesDecoder} {raw defaultMode : Bytes}
    (hparse : parseBuildModes decoder raw defaultMode maxConcurrency = .ok table) :
    Accepted maxConcurrency table := by
  simp only [parseBuildModes] at hparse
  generalize (if (trimSpace defaultMode).isEmpty then defaultBuildMode else trimSpace defaultMode) = mode
    at hparse
  split at hparse
  · cases hparse
  · split at hparse
    · cases hparse
      exact .implicit rfl rfl
    · split at hparse
      · cases hparse
      · rename_i configs hdecode
        split at hparse
        · cases hparse
        · split at hparse
          · cases hparse
          · cases hadd : addConcurrency 0 configs.entries with
            | error err =>
              rw [hadd] at hparse
              cases hparse
            | ok total =>
              rw [hadd] at hparse
              exact accepted_of_check (addConcurrency_ok hadd) hparse

theorem sum_nonneg (hpositive : ∀ e ∈ entries, 0 < e.2.concurrency.toInt) :
    0 ≤ (entries.map fun e => e.2.concurrency.toInt).sum := by
  apply List.sum_nonneg
  intro n hn
  obtain ⟨e, he, rfl⟩ := List.mem_map.1 hn
  exact (hpositive e he).le

theorem Accepted.total_le_iff (hmax : 0 < maxConcurrency) (haccepted : Accepted maxConcurrency table) :
    table.configs.total ≤ maxConcurrency.toInt ↔ table.configs.total < 2 ^ 63 := by
  have hbound : maxConcurrency.toInt < 2 ^ 63 := Int64.toInt_lt maxConcurrency
  refine ⟨fun hle => Int.lt_of_le_of_lt hle hbound, fun hlt => ?_⟩
  cases haccepted with
  | implicit _ htotal =>
    rw [htotal]
    exact (Int64.lt_iff_toInt_lt.1 hmax).le
  | @explicit total hpositive htotal hwithin =>
    have hnonneg : 0 ≤ table.configs.total := sum_nonneg hpositive
    have hexact : total.toInt = table.configs.total := by
      rw [htotal, Int.bmod_eq_of_le] <;> omega
    rw [← hexact]
    exact hwithin hmax

/-! ### Busy workers -/

variable {cfg : Config} {sh : Shared} {c : Cell} {modes : List (Bytes × Nat)} {s : State}

def TaskPc.works (pc : TaskPc) : Nat := if pc.running then 1 else 0

def Cell.worksIn (mode : Bytes) (c : Cell) : Nat := if c.spec.mode = mode then c.pc.works else 0

theorem busy_eq (s : State) (mode : Bytes) : s.busy mode = total (Cell.worksIn mode) s.cells := by
  rw [State.busy]
  induction s.cells with
  | nil => rfl
  | cons c cells ih =>
    rw [countP_cons, ih, total_cons, Nat.add_comm, Cell.worksIn, TaskPc.works]
    by_cases hmode : c.spec.mode = mode <;> simp [hmode]

def Staffed (modes : List (Bytes × Nat)) (s : State) : Prop :=
  ∀ mode, s.busy mode ≤ (modes.lookup mode).getD 0

theorem Staffed.of_le {s' : State} (hstaffed : Staffed modes s)
    (hle : ∀ mode, total (Cell.worksIn mode) s'.cells ≤ total (Cell.worksIn mode) s.cells) :
    Staffed modes s' := by
  intro mode
  have hbusy := hstaffed mode
  rw [busy_eq] at hbusy ⊢
  exact (hle mode).trans hbusy

theorem TaskPc.works_le (pc : TaskPc) : pc.works ≤ 1 := by
  rw [TaskPc.works]
  split <;> omega

theorem Cell.worksIn_le (mode : Bytes) (c : Cell) : c.worksIn mode ≤ 1 := by
  rw [Cell.worksIn]
  split
  · exact TaskPc.works_le _
  · exact Nat.zero_le _

theorem staffed_step {s' : State} {a : Action} (hmodes : cfg.modes = some modes) (hstaffed : Staffed modes s)
    (heffect : Effect cfg s a s') : Staffed modes s' := by
  -- A task that is not put to work leaves the workers as they are, or sets one free.
  have hset : ∀ {i : Nat} {c c' : Cell} {s' : State}, s.cells[i]? = some c → s'.cells = s.cells.set i c' →
      c'.spec = c.spec → c'.pc.works ≤ c.pc.works → Staffed modes s' := by
    intro i c c' s' hcell hcells hspec hworks
    refine hstaffed.of_le fun mode => ?_
    have hmove : total (Cell.worksIn mode) (s.cells.set i c') + c.worksIn mode =
        total (Cell.worksIn mode) s.cells + c'.worksIn mode := total_set _ hcell
    have hle : c'.worksIn mode ≤ c.worksIn mode := by
      rw [Cell.worksIn, Cell.worksIn, hspec]
      split <;> omega
    rw [hcells]
    omega
  cases heffect with
  | tick | request | closeQueue | refreshPool => exact hstaffed
  | create spec =>
    refine hstaffed.of_le fun mode => ?_
    rw [total_append, total_cons, total_nil, Cell.worksIn]
    split <;> exact le_rfl
  | handler hhandler hcell hnext hshared => exact hset hcell rfl (onCell_spec _ _ _) le_rfl
  | @enqueue k leaves h c outcome hhandler hpc hcell houtcome =>
    refine hset hcell rfl rfl ?_
    have hidle : outcome.pc.works = 0 := by
      rw [houtcome, Daemon.enqueue, hmodes]
      dsimp only
      split <;> rfl
    exact hidle.trans_le (Nat.zero_le _)
  | @pop mode i c hqueue hcell hmode concurrency hconcurrency hfree =>
    intro other
    have hmove : total (Cell.worksIn other) (s.cells.set i { c with pc := .get }) + c.worksIn other =
        total (Cell.worksIn other) s.cells + Cell.worksIn other { c with pc := .get } :=
      total_set _ hcell
    have hnew := Cell.worksIn_le other { c with pc := .get }
    rw [busy_eq]
    dsimp only
    by_cases hother : other = mode
    · subst hother
      have hlookup : modes.lookup other = some concurrency := by
        rw [hmodes] at hconcurrency
        exact hconcurrency
      rw [busy_eq] at hfree
      rw [hlookup, Option.getD_some]
      omega
    · have hbusy := hstaffed other
      have hidle : Cell.worksIn other { c with pc := .get } = 0 :=
        if_neg fun heq => hother (heq.symm.trans hmode)
      rw [busy_eq] at hbusy
      omega
  | task hcell hcontrol hshared =>
    refine hset hcell rfl (onCell_spec _ _ _) ?_
    have hrunning : TaskPc.works _ = 1 := if_pos (control_next hcontrol).running
    rw [hrunning]
    exact TaskPc.works_le _
  | ctxDone hcell | removeDir hcell => exact hset hcell rfl rfl le_rfl
  | reap hnow =>
    refine hstaffed.of_le fun mode => ?_
    rw [total_map]
    refine total_le_total _ fun c hc => ?_
    rw [Cell.reap]
    split <;> exact le_rfl

theorem staffed_run {addrs : List BuildkitAddr} {addrConcurrency : Nat} {as : List Action}
    (hmodes : cfg.modes = some modes) (hrun : Runs.exec (step cfg) (start addrs addrConcurrency) as = some s) :
    Staffed modes s :=
  Runs.exec_invariant (step cfg) (fun _ _ _ hstaffed hstep => staffed_step hmodes hstaffed (step_effect hstep))
    (fun _ => Nat.zero_le _) hrun

theorem Staffed.working_le (hstaffed : Staffed modes s) (hdistinct : (modes.map Prod.fst).Nodup) :
    total (fun c => c.pc.works) s.cells ≤ total Prod.snd modes := by
  have hkeys : ∀ c ∈ s.cells, c.pc.works ≠ 0 → c.spec.mode ∈ modes.map Prod.fst := by
    intro c hc hworks
    have hbusy := hstaffed c.spec.mode
    have hone : c.worksIn c.spec.mode ≤ s.busy c.spec.mode := by
      rw [busy_eq]
      exact Ledger.le_total _ hc
    rw [Cell.worksIn, if_pos rfl] at hone
    cases hlookup : modes.lookup c.spec.mode with
    | none =>
      rw [hlookup, Option.getD_none] at hbusy
      omega
    | some n =>
      obtain ⟨before, after, hsplit, _⟩ := lookup_eq_some_iff.1 hlookup
      rw [hsplit]
      simp
  calc total (fun c => c.pc.works) s.cells
      ≤ total (fun mode => total (Cell.worksIn mode) s.cells) (modes.map Prod.fst) :=
        total_le_keys _ (fun c : Cell => c.spec.mode) hkeys
    _ = total (fun e => s.busy e.1) modes := by
        rw [total_map]
        congr 1
        funext e
        exact (busy_eq s e.1).symm
    _ ≤ total Prod.snd modes := by
        refine total_le_total _ fun e he => ?_
        have hbusy := hstaffed e.1
        rwa [(Assoc.lookup_eq_some_iff hdistinct).2 he, Option.getD_some] at hbusy

theorem holdsGlobal_le_works (pc : TaskPc) : pc.holdsGlobal ≤ pc.works := by
  cases pc <;> simp [TaskPc.holdsGlobal, TaskPc.works, TaskPc.running]

theorem total_toNat (hpositive : ∀ e ∈ entries, 0 < e.2.concurrency.toInt) :
    (total (fun e => e.2.concurrency.toNatClampNeg) entries : Int) =
      (entries.map fun e => e.2.concurrency.toInt).sum := by
  induction entries with
  | nil => rfl
  | cons e entries ih =>
    rw [forall_mem_cons] at hpositive
    have hhead : (e.2.concurrency.toNatClampNeg : Int) = e.2.concurrency.toInt :=
      Int.toNat_of_nonneg hpositive.1.le
    rw [total_cons, Int.natCast_add, ih hpositive.2, hhead, map_cons, sum_cons]

theorem scheduled_total (hpositive : ∀ e ∈ table.configs.entries, 0 < e.2.concurrency.toInt)
    (hscheduled : table.scheduled = some modes) :
    (modes.map Prod.fst).Nodup ∧ (total Prod.snd modes : Int) = table.configs.total := by
  rw [ModeTable.scheduled] at hscheduled
  split at hscheduled
  · cases hscheduled
    have hperm := mergeSort_perm table.configs.entries fun a b => !less b.1 a.1
    constructor
    · rw [List.map_map]
      exact ((hperm.map Prod.fst).nodup_iff).2 table.configs.distinct
    · rw [total_map, total_toNat fun e he => hpositive e (hperm.subset he)]
      exact (hperm.map _).sum_eq
  · cases hscheduled

def NeverWaits (table : ModeTable) (maxConcurrency : Int64) : Prop :=
  ∀ (cfg : Config) (modes : List (Bytes × Nat)), table.scheduled = some modes → cfg.modes = some modes →
    cfg.maxConcurrency = maxConcurrency.toNatClampNeg →
    ∀ (addrs : List BuildkitAddr) (addrConcurrency : Nat) (as : List Action) (s : State),
      Runs.exec (step cfg) (start addrs addrConcurrency) as = some s →
      ∀ c ∈ s.cells, ∀ a, c.pc = .acquireGlobal a → s.shared.globalSem < cfg.maxConcurrency

theorem Accepted.neverWaits (hmax : 0 < maxConcurrency) (haccepted : Accepted maxConcurrency table)
    (hle : table.configs.total ≤ maxConcurrency.toInt) : NeverWaits table maxConcurrency := by
  intro cfg modes hscheduled hmodes hlimit addrs addrConcurrency as s hrun c hc a hpc
  cases haccepted with
  | implicit hexplicit =>
    rw [ModeTable.scheduled, hexplicit] at hscheduled
    cases hscheduled
  | explicit hpositive =>
    obtain ⟨hdistinct, htotal⟩ := scheduled_total hpositive hscheduled
    have hpositive : 0 < maxConcurrency.toInt := Int64.lt_iff_toInt_lt.1 hmax
    have hlimit' : (cfg.maxConcurrency : Int) = maxConcurrency.toInt := by
      rw [hlimit]
      exact Int.toNat_of_nonneg hpositive.le
    have hwaits : c.pc.holdsGlobal < c.pc.works := by
      rw [hpc]
      exact Nat.one_pos
    have hsem : s.shared.globalSem < total Prod.snd modes := by
      calc s.shared.globalSem
          = total (fun c => c.pc.holdsGlobal) s.cells :=
            ((conserved_run hrun).global (by omega)).tokens
        _ < total (fun c => c.pc.works) s.cells :=
            total_lt_total _ (fun d _ => holdsGlobal_le_works d.pc) hc hwaits
        _ ≤ total Prod.snd modes := (staffed_run hmodes hrun).working_le hdistinct
    omega

/-- Which tables are within the limit: then no worker waits for a global slot. -/
theorem modes_within_limit {decoder : ModesDecoder} {raw defaultMode : Bytes} {maxConcurrency : Int64}
    {table : ModeTable} (hmax : 0 < maxConcurrency)
    (hparse : parseBuildModes decoder raw defaultMode maxConcurrency = .ok table) :
    (table.configs.total ≤ maxConcurrency.toInt ↔ table.configs.total < 2 ^ 63) ∧
      (table.configs.total < 2 ^ 63 → NeverWaits table maxConcurrency) := by
  have haccepted := accepted_of_parse hparse
  have hiff := haccepted.total_le_iff hmax
  exact ⟨hiff, fun hlt => haccepted.neverWaits hmax (hiff.2 hlt)⟩

def sampleModes (n m : Nat) : Bytes :=
  ascii "\x7b\"default_mode\":\x7b\"concurrency\":" ++ decimal n ++
    ascii "\x7d,\"fast_mode\":\x7b\"concurrency\":" ++ decimal m ++ ascii "\x7d\x7d"

def sampleConfigs (n m : Nat) : ModeMap where
  entries := [(ascii "default_mode", ⟨Int64.ofNat n, false⟩), (ascii "fast_mode", ⟨Int64.ofNat m, false⟩)]
  distinct := by
    have hnames : [ascii "default_mode", ascii "fast_mode"].Nodup := by decide
    exact hnames

def sampleDecoder : ModesDecoder where
  decode raw :=
    if raw = sampleModes 2 3 then .ok (sampleConfigs 2 3)
    else if raw = sampleModes 9223372036854775807 9223372036854775807 then
      .ok (sampleConfigs 9223372036854775807 9223372036854775807)
    else .error (ascii "unexpected end of JSON input")
  trailing _ := false

theorem modes_within_limit_five :
    parseBuildModes sampleDecoder (sampleModes 2 3) [] 5 = .ok ⟨defaultBuildMode, sampleConfigs 2 3, true⟩ ∧
      (sampleConfigs 2 3).total ≤ 5 ∧ NeverWaits ⟨defaultBuildMode, sampleConfigs 2 3, true⟩ 5 := by
  have hparse : parseBuildModes sampleDecoder (sampleModes 2 3) [] 5 =
      .ok ⟨defaultBuildMode, sampleConfigs 2 3, true⟩ := by decide +kernel
  have hlt : (sampleConfigs 2 3).total < 2 ^ 63 := by decide +kernel
  obtain ⟨hiff, hwaits⟩ := modes_within_limit (by decide) hparse
  exact ⟨hparse, hiff.2 hlt, hwaits hlt⟩

def wrappedTable : ModeTable :=
  ⟨defaultBuildMode, sampleConfigs 9223372036854775807 9223372036854775807, true⟩

def wrappedConfig : Config := { sampleConfig with
  modes := some [(ascii "default_mode", 9223372036854775807), (ascii "fast_mode", 9223372036854775807)] }

theorem wrappedTable_scheduled : wrappedTable.scheduled = wrappedConfig.modes := by
  have hsorted : wrappedTable.configs.entries.Pairwise fun a b => (!less b.1 a.1) = true := by decide
  have hexplicit : wrappedTable.explicit = true := rfl
  rw [ModeTable.scheduled, if_pos hexplicit, mergeSort_of_pairwise hsorted]
  decide +kernel

def wrappedRun : List Action :=
  [.create sampleTask, .create { sampleTask with mode := ascii "fast_mode" }, .handler 0 false,
    .handler 1 false, .pop (ascii "default_mode"), .pop (ascii "fast_mode")] ++
    List.replicate 5 (.task 0 .go) ++ List.replicate 4 (.task 1 .go)

def TaskPc.asksGlobal : TaskPc → Bool
  | .acquireGlobal _ => true
  | _ => false

theorem TaskPc.asksGlobal_iff {pc : TaskPc} : pc.asksGlobal = true ↔ ∃ a, pc = .acquireGlobal a := by
  cases pc <;> simp [TaskPc.asksGlobal]

theorem wrapped_modes_beyond_limit :
    parseBuildModes sampleDecoder (sampleModes 9223372036854775807 9223372036854775807) [] 1 =
        .ok wrappedTable ∧
      ¬ wrappedTable.configs.total ≤ (1 : Int64).toInt ∧ ¬ NeverWaits wrappedTable 1 := by
  refine ⟨by decide +kernel, by decide +kernel, fun hwaits => ?_⟩
  have hruns : (Runs.exec (step wrappedConfig) sampleStart wrappedRun).any (fun s =>
      s.shared.globalSem == 1 && s.cells.any fun c => c.pc.asksGlobal) = true := by decide +kernel
  obtain ⟨s, hrun, hstate⟩ := (Option.any_eq_true _ _).1 hruns
  obtain ⟨hfull, hasks⟩ := Bool.and_eq_true_iff.1 hstate
  obtain ⟨c, hc, hpc⟩ := List.any_eq_true.1 hasks
  obtain ⟨a, ha⟩ := TaskPc.asksGlobal_iff.1 hpc
  have hfree := hwaits wrappedConfig _ wrappedTable_scheduled rfl rfl _ _ wrappedRun s hrun c hc a ha
  rw [eq_of_beq hfull] at hfree
  exact absurd hfree (by decide)

end BuildkitService.Daemon
