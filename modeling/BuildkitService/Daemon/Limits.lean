import BuildkitService.Daemon.Atomic
import BuildkitService.Daemon.Budget

/-!
# A create request within its limits

`handleCreateBuild` while it has the admission lock.
-/

namespace BuildkitService.Daemon

open Strings Files Archive Prog List Path

structure Shrunk (s s' : Server) : Prop where
  holder : s'.holder = s.holder
  tasks : s'.tasks.length ≤ s.tasks.length
  drawn : s'.drawn = s.drawn
  tree : ∃ kept : Place → Bool, s'.tree = s.tree.keep kept

def View.put (cfg : CreateConfig) (v : View) : Nat :=
  match v.id with
  | none => 0
  | some id => v.server.tree.sizeUnder (place (cfg.taskDir id))

def Within (cfg : CreateConfig) (v : View) : Prop :=
  ∀ held, v.measured = some held →
    held < cfg.workDirBytes ∧ held + v.put cfg ≤ cfg.workDirBytes ∨ cfg.workDirBytes ≤ held ∧ v.id = none

def Allowed (cfg : CreateConfig) (v : View) : ServerOp → Prop
  | .lockAdmission | .unlockAdmission => False
  | .storeAdd _ => v.server.tasks.length < cfg.retainedTasks
  | .readRandom => v.id = none
  | .fs o => ∀ p b, o = .write p b → ∃ id, v.id = some id ∧ (place (cfg.taskDir id)).under (place p) = true
  | _ => True

def locked (cfg : CreateConfig) (k : Nat) : Prog.Rules ServerOp ServerRes View where
  sem v o r v' := ∃ s, Shrunk v.server s ∧ Performs cfg k { v with server := s } o r v'
  guard := Allowed cfg
  during := Within cfg

variable {cfg : CreateConfig} {lib : CreateLib} {k : Nat} {v v' : View} {s s' : Server}
  {status : GoError → Nat} {parsed : Parsed}

theorem Shrunk.refl (s : Server) : Shrunk s s where
  holder := rfl
  tasks := le_rfl
  drawn := rfl
  tree := by
    refine ⟨fun _ => true, ?_⟩
    obtain ⟨holder, tasks, contexts, ⟨entries, hnodup⟩, drawn⟩ := s
    have hall : entries.filter (fun _ => true) = entries := filter_eq_self.2 fun _ _ => rfl
    simp only [Tree.keep, hall]

theorem Shrunk.trans {s'' : Server} (hfirst : Shrunk s s') (hthen : Shrunk s' s'') : Shrunk s s'' where
  holder := hthen.holder.trans hfirst.holder
  tasks := hthen.tasks.trans hfirst.tasks
  drawn := hthen.drawn.trans hfirst.drawn
  tree := by
    obtain ⟨kept, htree⟩ := hfirst.tree
    obtain ⟨kept', htree'⟩ := hthen.tree
    refine ⟨fun place => kept' place && kept place, ?_⟩
    rw [htree', htree]
    simp only [Tree.keep, List.filter_filter]

theorem Shrunk.sizeUnder_le (hshrunk : Shrunk s s') (top : Place) :
    s'.tree.sizeUnder top ≤ s.tree.sizeUnder top := by
  obtain ⟨kept, htree⟩ := hshrunk.tree
  rw [htree]
  exact sizeUnder_keep_le kept

theorem within_of_none (hid : v.id = none) : Within cfg v := by
  intro held _
  rcases Nat.lt_or_ge held cfg.workDirBytes with hlt | hge
  · left
    rw [View.put, hid]
    exact ⟨hlt, hlt.le⟩
  · exact .inr ⟨hge, hid⟩

theorem Within.of_put_le (hwithin : Within cfg v) (hmeasured : v'.measured = v.measured) (hid : v'.id = v.id)
    (hput : v'.put cfg ≤ v.put cfg) : Within cfg v' := by
  intro held hheld
  rw [hmeasured] at hheld
  rcases hwithin held hheld with ⟨hlt, hbytes⟩ | ⟨hge, hnone⟩
  · exact .inl ⟨hlt, by omega⟩
  · exact .inr ⟨hge, hid.trans hnone⟩

theorem put_le_put (hid : v'.id = v.id)
    (hsize : ∀ id, v.id = some id → v'.server.tree.sizeUnder (place (cfg.taskDir id)) ≤
      v.server.tree.sizeUnder (place (cfg.taskDir id))) : v'.put cfg ≤ v.put cfg := by
  rw [View.put, View.put, hid]
  cases hv : v.id with
  | none => exact le_rfl
  | some id => exact hsize id hv

/-! ### An admitted request -/

structure Granted (cfg : CreateConfig) (limit held : Nat) (id : Option Bytes) (v : View) : Prop where
  room : v.server.tasks.length < limit
  measured : v.measured = some held
  left : held < cfg.workDirBytes
  id : v.id = id

variable {limit held n : Nat} {id : Bytes} {id? : Option Bytes}

theorem Granted.put_le (hgranted : Granted cfg limit held id? v) (hwithin : Within cfg v) :
    v.put cfg ≤ cfg.workDirBytes - held := by
  have hleft := hgranted.left
  rcases hwithin held hgranted.measured with ⟨_, hbytes⟩ | ⟨hge, _⟩
  · omega
  · omega

theorem Granted.within (hgranted : Granted cfg limit held id? v) (hput : v.put cfg ≤ cfg.workDirBytes - held) :
    Within cfg v := by
  intro held' hheld
  obtain rfl : held = held' := Option.some.inj (hgranted.measured.symm.trans hheld)
  have hleft := hgranted.left
  exact .inl ⟨hleft, by omega⟩

theorem Granted.put_eq (hgranted : Granted cfg limit held (some id) v) :
    v.put cfg = v.server.tree.sizeUnder (place (cfg.taskDir id)) := by
  rw [View.put, hgranted.id]

theorem Granted.shrunk (hgranted : Granted cfg limit held id? v) (hshrunk : Shrunk v.server s) :
    Granted cfg limit held id? { v with server := s } where
  room := Nat.lt_of_le_of_lt hshrunk.tasks hgranted.room
  measured := hgranted.measured
  left := hgranted.left
  id := hgranted.id

/-! ### Operations that add nothing -/

def ServerOp.Harmless : ServerOp → Prop
  | .lockAdmission | .unlockAdmission | .storeAdd _ | .readRandom | .walkDir .sizes _ => False
  | .fs o => FsOp.Silent o
  | _ => True

theorem ServerOp.Harmless.allowed {o : ServerOp} (hharmless : o.Harmless) : Allowed cfg v o := by
  cases o with
  | lockAdmission | unlockAdmission => exact hharmless
  | storeAdd | readRandom => exact hharmless.elim
  | fs o =>
    intro p b heq
    exact absurd heq (hharmless p b)
  | _ => exact trivial

theorem ServerOp.Harmless.performs {o : ServerOp} {r : ServerRes o} (hharmless : o.Harmless)
    (hperforms : Performs cfg k v o r v') :
    v'.measured = v.measured ∧ v'.id = v.id ∧ v'.server.tasks.length ≤ v.server.tasks.length ∧
      ∀ top, v'.server.tree.sizeUnder top ≤ v.server.tree.sizeUnder top := by
  cases hperforms.outcome with
  | asked | opened | cancelled => exact ⟨rfl, rfl, le_rfl, fun _ => le_rfl⟩
  | deleted id => exact ⟨rfl, rfl, length_filter_le _ _, fun _ => le_rfl⟩
  | files hdoes =>
    refine ⟨rfl, rfl, le_rfl, ?_⟩
    intro top
    have hsize := hdoes.sizeUnder_le top
    rwa [growth_silent hharmless] at hsize
  | locked | unlocked | added | measured | undrawn | drawn data => exact hharmless.elim

theorem limited_harmless {α : Type} {p : ServerProg α} (hharmless : Only ServerOp.Harmless p)
    (hgranted : Granted cfg limit held id? v) (hput : v.put cfg ≤ n) (hn : n ≤ cfg.workDirBytes - held) :
    Holds (locked cfg k) p v fun _ v' => Granted cfg limit held id? v' ∧ v'.put cfg ≤ n := by
  refine hharmless.holds (I := fun v => Granted cfg limit held id? v ∧ v.put cfg ≤ n) ?_ ?_ ?_ ⟨hgranted, hput⟩
  · rintro w ⟨hw, hwput⟩
    exact hw.within (hwput.trans hn)
  · intro w o _ ho
    exact ho.allowed
  · rintro w o r w' ⟨hw, hwput⟩ ho ⟨server, hshrunk, hperforms⟩
    obtain ⟨hmeasured, hid, htasks, hsizes⟩ := ho.performs hperforms
    have hserver := hw.shrunk hshrunk
    refine ⟨⟨htasks.trans_lt hserver.room, hmeasured.trans hserver.measured, hserver.left, hid.trans hserver.id⟩, ?_⟩
    have hsame : w'.id = w.id := hid
    refine (put_le_put hsame ?_).trans hwput
    intro id _
    exact (hsizes _).trans (hshrunk.sizeUnder_le _)

theorem harmless_removeAll (path : Bytes) : Only ServerOp.Harmless (onFiles (removeAll path)) :=
  only_lift _ _ (only_op nofun)

/-! ### Programs on files -/

def ownFiles (cfg : CreateConfig) (held : Nat) (id : Bytes) : Prog.Rules FsOp FsRes Tree :=
  allotted (place (cfg.taskDir id)) (cfg.workDirBytes - held)

theorem limited_files {α : Type} {p : FsProg α} {post : α → Tree → Prop}
    (hp : Holds (ownFiles cfg held id) p v.server.tree post) (hgranted : Granted cfg limit held (some id) v) :
    Holds (locked cfg k) (onFiles p) v fun a v' => post a v'.server.tree ∧ Granted cfg limit held (some id) v' := by
  refine Holds.lift _ _ ?_ ?_ ?_ hgranted hp
  · intro w hw hsize
    exact hw.within (hw.put_eq.trans_le hsize)
  · intro w o hw hguard path b heq
    exact ⟨id, hw.id, hguard path b heq⟩
  · rintro w o r w' hw ⟨server, hshrunk, t, hdoes, rfl⟩
    obtain ⟨kept, htree⟩ := hshrunk.tree
    refine ⟨⟨kept, ?_⟩, ?_⟩
    · rw [← htree]
      exact hdoes
    · have hafter := hw.shrunk hshrunk
      exact ⟨hafter.room, hafter.measured, hafter.left, hafter.id⟩

/-! ### The steps that write -/

def Goes {ε α : Type} (cfg : CreateConfig) (limit held : Nat) (id : Bytes) (post : α → View → Prop) (r : Except ε α)
    (v : View) : Prop :=
  (∀ a, r = .ok a → post a v) ∧ Granted cfg limit held (some id) v

section Steps

variable {α β : Type} {post : α → View → Prop} {last : β → View → Prop} {taskDir : Bytes}

theorem Goes.attempt {p : ServerProg (Except Refusal α)} {f : α → ServerProg (Except Refusal β)}
    (hp : Holds (locked cfg k) p v (Goes cfg limit held id post))
    (hf : ∀ a v', post a v' → Granted cfg limit held (some id) v' → Within cfg v' →
      Holds (locked cfg k) (f a) v' (Goes cfg limit held id last)) :
    Holds (locked cfg k) (attempt p f) v (Goes cfg limit held id last) :=
  hp.attempt (fun a v' hgoes hnow => hf a v' (hgoes.1 a rfl) hgoes.2 hnow)
    fun _ _ hgoes _ => ⟨nofun, hgoes.2⟩

theorem limited_removeAll {f : Unit → ServerProg β} {path : Bytes}
    (hgranted : Granted cfg limit held (some id) v) (hnow : Within cfg v)
    (hnext : ∀ v', Granted cfg limit held (some id) v' → Within cfg v' → Holds (locked cfg k) (f ()) v' last) :
    Holds (locked cfg k) (onFiles (removeAll path) >>= f) v last := by
  refine (limited_harmless (harmless_removeAll path) hgranted (hgranted.put_le hnow) le_rfl).bind ?_
  intro _ v' hafter hnow'
  exact hnext v' hafter.1 hnow'

theorem limited_orRefuse {p : ServerProg (Except GoError α)}
    (hp : Holds (locked cfg k) p v (Goes cfg limit held id post)) :
    Holds (locked cfg k) (orRefuse taskDir status p) v (Goes cfg limit held id post) := by
  refine hp.bind ?_
  intro r v' hgoes hnow
  cases r with
  | ok a =>
    refine holds_pure hnow ⟨?_, hgoes.2⟩
    intro a' heq
    rw [← Except.ok.inj heq]
    exact hgoes.1 a rfl
  | error err =>
    refine limited_removeAll hgoes.2 hnow fun v'' hgranted hnow' => ?_
    exact holds_pure hnow' ⟨nofun, hgranted⟩

theorem limited_refusing {p : FsProg (Except GoError α)} {post : α → Tree → Prop}
    (hgranted : Granted cfg limit held (some id) v)
    (hp : Holds (ownFiles cfg held id) p v.server.tree fun r t => ∀ a, r = .ok a → post a t) :
    Holds (locked cfg k) (orRefuse taskDir status (onFiles p)) v
      (Goes cfg limit held id fun a v' => post a v'.server.tree) :=
  limited_orRefuse (limited_files hp hgranted)

theorem limited_reading {p : ServerProg (Except GoError α)} (hharmless : Only ServerOp.Harmless p)
    (hgranted : Granted cfg limit held (some id) v) (hnow : Within cfg v) :
    Holds (locked cfg k) (orRefuse taskDir status p) v (Goes cfg limit held id fun _ _ => True) := by
  refine limited_orRefuse ((limited_harmless hharmless hgranted (hgranted.put_le hnow) le_rfl).mono ?_)
  intro r v' _ hafter
  exact ⟨fun _ _ => trivial, hafter.1⟩

end Steps

theorem limited_routeImage {image digest taskDir : Bytes} (hgranted : Granted cfg limit held (some id) v)
    (hnow : Within cfg v) : Holds (locked cfg k) (routeImage cfg lib.routing taskDir image digest) v
      (Goes cfg limit held id fun _ _ => True) := by
  rw [routeImage]
  cases cfg.router with
  | none =>
    refine limited_removeAll hgranted hnow fun v' hgranted' hnow' => ?_
    exact holds_pure hnow' ⟨fun _ hok => (by cases hok), hgranted'⟩
  | some router => exact limited_reading (only_pure _) hgranted hnow

theorem limited_prepareContext {contextParentDir : Bytes}
    (hcontext : (place (cfg.taskDir id)).under (place contextParentDir) = true)
    (hgranted : Granted cfg limit held (some id) v) (hnow : Within cfg v) :
    Holds (locked cfg k) (prepareContext cfg lib (cfg.taskDir id) contextParentDir parsed) v
      (Goes cfg limit held id fun _ _ => True) := by
  have hsize : ∀ {w : View}, Granted cfg limit held (some id) w → Within cfg w →
      w.server.tree.sizeUnder (place (cfg.taskDir id)) ≤ cfg.workDirBytes - held := by
    intro w hw hwithin
    exact hw.put_eq.symm.trans_le (hw.put_le hwithin)
  refine Goes.attempt (limited_refusing hgranted (holds_findBuildContext hcontext (hsize hgranted hnow))) ?_
  intro contextDir v₁ hdir hgranted₁ hnow₁
  refine Goes.attempt (limited_reading (only_sourceContextContentHash (fun _ => trivial) (fun _ => trivial) _ _)
    hgranted₁ hnow₁) ?_
  intro scheduleKey v₂ _ hgranted₂ hnow₂
  have hdockerfile : Inside (ascii "Dockerfile") := inside_ascii (by decide)
  have hpreprocess : Holds (ownFiles cfg held id) (preprocessDockerfile lib.frontend (join contextDir (ascii "Dockerfile")))
      v₂.server.tree fun r _ => ∀ changed, r = .ok changed → True :=
    (holds_preprocessDockerfile (under_join hdockerfile hdir) (top_join hdockerfile) (hsize hgranted₂ hnow₂)).mono
      fun _ _ _ _ _ _ => trivial
  refine Goes.attempt (limited_refusing hgranted₂ hpreprocess) ?_
  intro _ v₃ _ hgranted₃ hnow₃
  refine Goes.attempt (limited_reading (only_lift _ _ (silent_resolveBuildImage _ _ _)) hgranted₃ hnow₃) ?_
  intro image v₄ _ hgranted₄ hnow₄
  dsimp only
  split_ifs
  · refine Goes.attempt (limited_routeImage hgranted₄ hnow₄) ?_
    intro routedTarget v₅ _ hgranted₅ hnow₅
    exact holds_pure hnow₅ ⟨fun _ _ => trivial, hgranted₅⟩
  · exact holds_pure hnow₄ ⟨fun _ _ => trivial, hgranted₄⟩

theorem under_taskDir (cfg : CreateConfig) (id : Bytes) :
    (place (cfg.taskDir id)).under (place (cfg.taskDir id)) = true :=
  Place.under_iff.2 ⟨rfl, prefix_rfl⟩

theorem limited_extractArchive {zipPath dst : Bytes} {zipped maxExtractedBytes maxArchiveFiles : Nat}
    (hdst : (place (cfg.taskDir id)).under (place dst) = true) (hgranted : Granted cfg limit held (some id) v)
    (hput : v.put cfg ≤ zipped) (hroom : zipped + maxExtractedBytes ≤ cfg.workDirBytes - held) :
    Holds (locked cfg k) (extractArchive zipPath dst maxExtractedBytes maxArchiveFiles) v
      (Goes cfg limit held id fun _ _ => True) := by
  have hopen : Only ServerOp.Harmless (openZip zipPath) := only_op trivial
  refine (limited_harmless hopen hgranted hput (by omega)).bind ?_
  rintro archive v₁ ⟨hgranted₁, hput₁⟩ _
  rw [hgranted₁.put_eq] at hput₁
  refine (limited_files (holds_extractZip hdst hput₁ hroom) hgranted₁).mono ?_
  intro r v₂ _ hafter
  exact ⟨fun _ _ => trivial, hafter.2⟩

theorem limited_stageFiles {maxRequestBytes : Nat} (hgranted : Granted cfg limit held (some id) v)
    (hempty : v.put cfg = 0) (hrequest : maxRequestBytes ≤ cfg.workDirBytes - held) :
    Holds (locked cfg k) (stageFiles cfg lib (cfg.taskDir id) (join (cfg.taskDir id) (ascii "context")) parsed
      maxRequestBytes (cfg.workDirBytes - held)) v (Goes cfg limit held id fun _ _ => True) := by
  have hzip : Inside (ascii "source.zip") := inside_ascii (by decide)
  have hcontext : Inside (ascii "context") := inside_ascii (by decide)
  have hzipPath := under_join hzip (under_taskDir cfg id)
  rw [hgranted.put_eq] at hempty
  have hsave : Holds (ownFiles cfg held id)
      (saveUploadedFile parsed.upload (join (cfg.taskDir id) (ascii "source.zip")) maxRequestBytes) v.server.tree
      fun r t => ∀ a, r = .ok a →
        Sole (place (cfg.taskDir id)) (join (cfg.taskDir id) (ascii "source.zip")) t :=
    (holds_saveUploadedFile hzipPath hempty hrequest).mono fun _ _ _ hsole _ _ => hsole
  refine Goes.attempt (limited_refusing hgranted hsave) ?_
  intro _ v₁ hsole hgranted₁ hnow₁
  have hsize₁ := hgranted₁.put_eq.symm.trans_le (hgranted₁.put_le hnow₁)
  refine Goes.attempt (limited_refusing hgranted₁ (holds_stat hzipPath (top_join hzip) hsole hsize₁)) ?_
  intro zipInfo v₂ hzipped hgranted₂ hnow₂
  split_ifs
  · refine limited_removeAll hgranted₂ hnow₂ fun v₃ hgranted₃ hnow₃ => ?_
    exact holds_pure hnow₃ ⟨nofun, hgranted₃⟩
  · refine Goes.attempt (limited_orRefuse (limited_extractArchive (under_join hcontext (under_taskDir cfg id))
      hgranted₂ (hgranted₂.put_eq.trans_le hzipped) ?_)) ?_
    · have hclamp := Nat.min_le_right cfg.extractedBytes (cfg.workDirBytes - held - zipInfo.size)
      omega
    · intro _ v₃ _ hgranted₃ hnow₃
      exact limited_prepareContext (under_join hcontext (under_taskDir cfg id)) hgranted₃ hnow₃

/-! ### The context and the store -/

theorem harmless_refuseParameter {α : Type} (taskDir err : Bytes) (ctx : Nat) :
    Only ServerOp.Harmless (refuseParameter taskDir ctx err : ServerProg (Except Refusal α)) := by
  refine Only.bind (only_op trivial) fun _ => ?_
  exact (harmless_removeAll taskDir).bind fun _ => only_pure _

theorem harmless_readRetries (taskDir : Bytes) (form : Form) (ctx : Nat) :
    Only ServerOp.Harmless (readRetries taskDir form ctx) := by
  rw [readRetries]
  split
  · exact harmless_refuseParameter _ _ _
  · split
    · exact harmless_refuseParameter _ _ _
    · exact only_pure _

theorem harmless_openContext (taskDir : Bytes) (form : Form) (sync : Bool) :
    Only ServerOp.Harmless (openContext taskDir form sync) := by
  refine Only.bind (only_op trivial) fun ctx => ?_
  split
  · exact harmless_refuseParameter _ _ _
  · split_ifs
    · refine Only.bind (only_op trivial) fun _ => ?_
      exact Only.bind (only_op trivial) fun _ => harmless_readRetries _ _ _
    · exact harmless_readRetries _ _ _

theorem harmless_cleanupTask (id : Bytes) : Only ServerOp.Harmless (cleanupTask id) := by
  refine Only.bind (only_op trivial) fun found => ?_
  cases found with
  | none => exact only_pure _
  | some task =>
    dsimp only
    split_ifs
    · exact only_pure _
    · exact harmless_removeAll _

theorem limited_publish {task : NewTask} (hgranted : Granted cfg cfg.retainedTasks held (some id) v)
    (hnow : Within cfg v) : Holds (locked cfg k) (publish cfg task) v fun _ _ => True := by
  refine holds_op_bind hnow hgranted.room ?_
  rintro _ v' ⟨server, hshrunk, rfl⟩
  have hserver := hgranted.shrunk hshrunk
  generalize hadded : ({ v with server := { server with
    tasks := server.tasks.filter (fun old => old.id != task.id) ++ [task] } } : View) = v'
  have hgranted' : Granted cfg (cfg.retainedTasks + 1) held (some id) v' := by
    rw [← hadded]
    refine ⟨?_, hserver.measured, hserver.left, hserver.id⟩
    have hothers := length_filter_le (fun old => old.id != task.id) server.tasks
    have hroom : server.tasks.length < cfg.retainedTasks := hserver.room
    show (server.tasks.filter (fun old => old.id != task.id) ++ [task]).length < _
    rw [length_append, length_singleton]
    omega
  have hput : v'.put cfg ≤ cfg.workDirBytes - held := by
    have hid : v'.id = v.id := by rw [← hadded]
    refine (put_le_put hid ?_).trans (hgranted.put_le hnow)
    intro id _
    rw [← hadded]
    exact hshrunk.sizeUnder_le _
  refine (limited_harmless ?_ hgranted' hput le_rfl).mono fun _ _ _ _ => trivial
  split_ifs
  · refine Only.bind (only_op trivial) fun r => ?_
    cases r with
    | ok a => exact only_pure _
    | error err =>
      refine Only.bind (only_op trivial) fun _ => ?_
      refine Only.bind (only_op trivial) fun _ => ?_
      refine Only.bind (only_op trivial) fun _ => ?_
      exact (harmless_cleanupTask task.id).bind fun _ => only_pure _
  · exact Only.bind (only_op trivial) fun _ => only_pure _

theorem limited_createIn {maxRequestBytes : Nat} (hgranted : Granted cfg cfg.retainedTasks held (some id) v)
    (hempty : v.put cfg = 0) (hrequest : maxRequestBytes ≤ cfg.workDirBytes - held) :
    Holds (locked cfg k) (createIn cfg lib id (cfg.taskDir id) (join (cfg.taskDir id) (ascii "context")) parsed
      maxRequestBytes (cfg.workDirBytes - held)) v fun _ _ => True := by
  refine (limited_stageFiles hgranted hempty hrequest).attempt ?_ fun _ _ _ _ => trivial
  intro prepared v₁ hgoes hnow₁
  have hgranted₁ := hgoes.2
  refine (limited_harmless (harmless_openContext _ _ _) hgranted₁ (hgranted₁.put_le hnow₁) le_rfl).attempt ?_
    fun _ _ _ _ => trivial
  intro scheduling v₂ hafter hnow₂
  exact limited_publish hafter.1 hnow₂

/-! ### The whole request -/

theorem limited_checkLimits (hid : v.id = none) :
    Holds (locked cfg k) (checkLimits cfg) v fun r v' => ∀ remaining, r = .ok remaining →
      ∃ held, Granted cfg cfg.retainedTasks held none v' ∧ remaining = cfg.workDirBytes - held := by
  refine holds_op_bind (within_of_none hid) trivial ?_
  rintro count v₁ ⟨server, _, rfl, rfl⟩
  have hid₁ : ({ v with server := server } : View).id = none := hid
  split_ifs with hcount
  · exact holds_pure (within_of_none hid₁) nofun
  · refine holds_op_bind (within_of_none hid₁) trivial ?_
    rintro entries v₂ ⟨server', hshrunk', rfl⟩
    cases hsum : sumSizes entries 0 with
    | error err => exact holds_pure (within_of_none hid) nofun
    | ok held =>
      show Holds _ (if cfg.workDirBytes ≤ held then _ else _) _ _
      split_ifs with hheld
      · exact holds_pure (within_of_none hid) nofun
      · refine holds_pure (within_of_none hid) ?_
        intro remaining heq
        have hroom : server'.tasks.length < cfg.retainedTasks := by
          have htasks : server'.tasks.length ≤ server.tasks.length := hshrunk'.tasks
          exact htasks.trans_lt (Nat.lt_of_not_le hcount)
        exact ⟨held, ⟨hroom, rfl, Nat.lt_of_not_le hheld, hid⟩, (Except.ok.inj heq).symm⟩

theorem sizeUnder_of_noEntry {t : Tree} {top : Place} (hnone : NoEntry t top) : t.sizeUnder top = 0 := by
  refine Ledger.total_eq_zero _ ?_
  intro e he
  rw [weight, hnone e he]
  rfl

theorem limited_createBuild (hid : v.id = none) :
    Holds (locked cfg k) (createBuild cfg lib) v fun _ _ => True := by
  refine (limited_checkLimits hid).attempt ?_ fun _ _ _ _ => trivial
  intro remaining v₁ hchecked hnow₁
  obtain ⟨held, hgranted₁, rfl⟩ := hchecked remaining rfl
  have hparse : Only ServerOp.Harmless (parseRequest cfg (min cfg.requestBytes (cfg.workDirBytes - held))) :=
    only_parseRequest fun _ => trivial
  refine (limited_harmless hparse hgranted₁ (hgranted₁.put_le hnow₁) le_rfl).attempt ?_ fun _ _ _ _ => trivial
  rintro parsed v₂ ⟨hgranted₂, _⟩ hnow₂
  refine holds_op_bind hnow₂ hgranted₂.id ?_
  rintro (err | data) v₃ ⟨server, hshrunk, hperforms⟩
  · obtain rfl := hperforms
    exact holds_pure (within_of_none hgranted₂.id) trivial
  · obtain ⟨hfresh, rfl⟩ := hperforms
    -- nothing has the new id, so there is nothing below the directory
    generalize hdrawn : ({ v₂ with
      server := { server with drawn := hexEncode data.toList :: server.drawn }
      id := some (hexEncode data.toList) } : View) = v₃
    have hgranted₃ : Granted cfg cfg.retainedTasks held (some (hexEncode data.toList)) v₃ := by
      have hserver := hgranted₂.shrunk hshrunk
      rw [← hdrawn]
      exact ⟨hserver.room, hserver.measured, hserver.left, rfl⟩
    have hempty₃ : v₃.put cfg ≤ 0 := by
      rw [hgranted₃.put_eq, ← hdrawn]
      exact (sizeUnder_of_noEntry hfresh.dir).le
    have hmkdir : Only ServerOp.Harmless
        (onFiles (mkdirAll (join (cfg.taskDir (hexEncode data.toList)) (ascii "context")))) :=
      only_lift _ _ (silent_mkdirAll _)
    refine (limited_harmless hmkdir hgranted₃ hempty₃ (Nat.zero_le _)).bind ?_
    rintro (err | made) v₄ ⟨hgranted₄, hempty₄⟩ hnow₄
    · exact holds_pure hnow₄ trivial
    · exact limited_createIn hgranted₄ (Nat.le_zero.1 hempty₄) (Nat.min_le_right _ _)

end BuildkitService.Daemon
