import BuildkitService.Archive.Confined
import BuildkitService.Daemon.ModeQueue
import BuildkitService.Daemon.Server
import BuildkitService.Dockerfile.Frame

/-!
# A refused request leaves nothing behind

A create request that is answered with an error gives back everything it took: the lock, its
context, its directory and its place in the store.
-/

namespace BuildkitService.Daemon

open Strings Files Archive Prog
open List hiding Vector

def Reliable (v : View) : (o : ServerOp) → ServerRes o → View → Prop
  | .fs (.mkdirAll _), .error _, v' => v'.server.tree = v.server.tree
  | .fs (.removeAll p), _, v' => NoEntry v'.server.tree (place p)
  | _, _, _ => True

def alone (cfg : CreateConfig) (k : Nat) : Prog.Rules ServerOp ServerRes View where
  sem v o r v' := Performs cfg k v o r v' ∧ Reliable v o r v'
  guard _ _ := True
  during _ := True

/-! ### What stays as it is -/

structure Unmoved (v₀ : View) (more : List Bool) (v : View) : Prop where
  holder : v.server.holder = v₀.server.holder
  tasks : v.server.tasks = v₀.server.tasks
  contexts : v.server.contexts = v₀.server.contexts ++ more
  id : v.id = v₀.id

def ServerOp.onlyFiles : ServerOp → Bool
  | .lockAdmission | .unlockAdmission | .storeAdd _ | .storeDelete _ | .newContext _ _ | .cancel _ | .readRandom => false
  | _ => true

variable {cfg : CreateConfig} {lib : CreateLib} {k maxRequestBytes m : Nat} {v₀ v v' : View} {more : List Bool}
  {contextParentDir : Bytes} {parsed : Parsed}

theorem Unmoved.refl (v : View) : Unmoved v [] v := ⟨rfl, rfl, (append_nil _).symm, rfl⟩

theorem Unmoved.performs {o : ServerOp} {r : ServerRes o} (hsame : Unmoved v₀ more v) (hfiles : o.onlyFiles = true)
    (hperforms : Performs cfg k v o r v') : Unmoved v₀ more v' := by
  cases hperforms.outcome with
  | asked _ => exact hsame
  | measured | files => exact ⟨hsame.holder, hsame.tasks, hsame.contexts, hsame.id⟩
  | locked | unlocked | added | deleted | opened | cancelled | undrawn | drawn data => cases hfiles

theorem holds_onlyFiles {α : Type} {p : ServerProg α} (hfiles : Only (fun o => o.onlyFiles = true) p)
    (hsame : Unmoved v₀ more v) : Holds (alone cfg k) p v fun _ v' => Unmoved v₀ more v' :=
  hfiles.holds (fun _ _ => trivial) (fun _ _ _ _ => trivial)
    (fun _ _ _ _ hsame hfiles hsem => hsame.performs hfiles hsem.1) hsame

/-! ### Steps that remove the directory -/

theorem holds_removeAll {β : Type} {p : Bytes} {f : Unit → ServerProg β} {last : β → View → Prop}
    (hsame : Unmoved v₀ more v)
    (hnext : ∀ v', Unmoved v₀ more v' → NoEntry v'.server.tree (place p) → Holds (alone cfg k) (f ()) v' last) :
    Holds (alone cfg k) (onFiles (removeAll p) >>= f) v last :=
  ⟨trivial, trivial, fun _ v' hsem => hnext v' (hsame.performs rfl hsem.1) hsem.2⟩

def Cleared {α : Type} (v₀ : View) (more : List Bool) (taskDir : Bytes) (r : Except Refusal α) (v : View) : Prop :=
  Unmoved v₀ more v ∧ ∀ e, r = .error e → NoEntry v.server.tree (place taskDir)

variable {α β : Type} {taskDir : Bytes} {last : β → View → Prop}

theorem holds_orRefuse {status : GoError → Nat} {p : ServerProg (Except GoError α)}
    (hfiles : Only (fun o => o.onlyFiles = true) p) (hsame : Unmoved v₀ more v) :
    Holds (alone cfg k) (orRefuse taskDir status p) v (Cleared v₀ more taskDir) := by
  refine (holds_onlyFiles hfiles hsame).bind ?_
  intro r v' hsame' _
  cases r with
  | ok a => exact holds_pure trivial ⟨hsame', nofun⟩
  | error err =>
    refine holds_removeAll hsame' ?_
    intro v'' hsame'' hclear
    exact holds_pure trivial ⟨hsame'', fun _ _ => hclear⟩

theorem Cleared.attempt {p : ServerProg (Except Refusal α)} {f : α → ServerProg (Except Refusal β)}
    (hp : Holds (alone cfg k) p v (Cleared v₀ more taskDir))
    (hf : ∀ a v', Unmoved v₀ more v' → Holds (alone cfg k) (f a) v' (Cleared v₀ more taskDir)) :
    Holds (alone cfg k) (attempt p f) v (Cleared v₀ more taskDir) :=
  hp.attempt (fun a v' hcleared _ => hf a v' hcleared.1)
    (fun e _ hcleared _ => ⟨hcleared.1, fun _ _ => hcleared.2 e rfl⟩)

section Asking

variable {P : ServerOp → Prop}

theorem only_onFiles (hfs : ∀ o, P (.fs o)) (p : FsProg α) : Only P (onFiles p) :=
  only_lift _ _ (only_of_forall hfs p)

theorem only_extractArchive (hzip : ∀ path, P (.openZip path)) (hfs : ∀ o, P (.fs o)) {zipPath dst : Bytes}
    {maxExtractedBytes maxArchiveFiles : Nat} : Only P (extractArchive zipPath dst maxExtractedBytes maxArchiveFiles) :=
  Only.bind (only_op (hzip _)) fun _ => only_onFiles hfs _

theorem only_checkLimits (hlen : P .storeLen) (hwalk : ∀ dir, P (.walkDir .sizes dir)) : Only P (checkLimits cfg) := by
  refine Only.bind (only_op hlen) fun count => ?_
  split_ifs
  · exact only_pure _
  · have hsize : Only P (directorySize cfg.workDir) :=
      Only.bind (only_op (hwalk _)) fun entries => only_pure _
    refine hsize.bind fun r => ?_
    cases r with
    | error err => exact only_pure _
    | ok workDirBytes =>
      dsimp only
      split_ifs
      · exact only_pure _
      · exact only_pure _

theorem only_hashInput (hhash : ∀ path, P (.hashFile path)) (dir : Bytes) (rels : List Bytes) (input : Bytes) :
    Only P (hashInput dir rels input) := by
  induction rels generalizing input with
  | nil => exact only_pure _
  | cons rel rels ih =>
    refine Only.bind (only_op (hhash _)) ?_
    intro r
    cases r with
    | ok content => exact ih _
    | error failure => exact only_pure _

theorem only_sourceContextContentHash (hwalk : ∀ dir, P (.walkDir .files dir)) (hhash : ∀ path, P (.hashFile path))
    (lib : RoutingLib) (dir : Bytes) : Only P (sourceContextContentHash lib dir) := by
  refine Only.bind (only_op (hwalk dir)) ?_
  intro entries
  cases contextFiles entries with
  | error err => exact only_pure _
  | ok rels => exact (only_hashInput hhash dir _ []).attempt fun input => only_pure _

theorem only_parseRequest (hparse : ∀ maxBytes, P (.parseMultipartForm maxBytes)) :
    Only P (parseRequest cfg maxRequestBytes) := by
  refine Only.bind (only_op (hparse maxRequestBytes)) fun r => ?_
  cases r with
  | ok form => exact only_pure _
  | error err =>
    dsimp only
    split_ifs
    · exact only_pure _
    · exact only_pure _

end Asking

section

variable (hsame : Unmoved v₀ more v)

include hsame

theorem holds_routeImage {image digest : Bytes} :
    Holds (alone cfg k) (routeImage cfg lib.routing taskDir image digest) v (Cleared v₀ more taskDir) := by
  rw [routeImage]
  cases cfg.router with
  | none =>
    refine holds_removeAll hsame ?_
    intro v' hsame' hclear
    exact holds_pure trivial ⟨hsame', fun _ _ => hclear⟩
  | some router => exact holds_orRefuse (only_pure _) hsame

theorem holds_prepareContext :
    Holds (alone cfg k) (prepareContext cfg lib taskDir contextParentDir parsed) v (Cleared v₀ more taskDir) := by
  refine Cleared.attempt (holds_orRefuse (only_onFiles (fun _ => rfl) _) hsame) fun contextDir v₁ hsame₁ => ?_
  refine Cleared.attempt (holds_orRefuse (only_sourceContextContentHash (fun _ => rfl) (fun _ => rfl) _ _) hsame₁) fun scheduleKey v₂ hsame₂ => ?_
  refine Cleared.attempt (holds_orRefuse (only_onFiles (fun _ => rfl) _) hsame₂) fun _ v₃ hsame₃ => ?_
  refine Cleared.attempt (holds_orRefuse (only_onFiles (fun _ => rfl) _) hsame₃) fun image v₄ hsame₄ => ?_
  dsimp only
  split_ifs
  · refine Cleared.attempt (holds_routeImage hsame₄) fun routedTarget v₅ hsame₅ => ?_
    exact holds_pure trivial ⟨hsame₅, nofun⟩
  · exact holds_pure trivial ⟨hsame₄, nofun⟩

theorem holds_stageFiles {remaining : Nat} :
    Holds (alone cfg k) (stageFiles cfg lib taskDir contextParentDir parsed maxRequestBytes remaining) v
      (Cleared v₀ more taskDir) := by
  refine Cleared.attempt (holds_orRefuse (only_onFiles (fun _ => rfl) _) hsame) fun _ v₁ hsame₁ => ?_
  refine Cleared.attempt (holds_orRefuse (only_onFiles (fun _ => rfl) _) hsame₁) fun zipInfo v₂ hsame₂ => ?_
  split_ifs
  · refine holds_removeAll hsame₂ ?_
    intro v₃ hsame₃ hclear
    exact holds_pure trivial ⟨hsame₃, fun _ _ => hclear⟩
  · refine Cleared.attempt (holds_orRefuse (only_extractArchive (fun _ => rfl) fun _ => rfl) hsame₂) fun _ v₃ hsame₃ => ?_
    exact holds_prepareContext hsame₃

end

/-! ### The context -/

def opened (m : Nat) : List Bool := List.replicate m true ++ [false]

theorem holds_newContext {sync : Bool} {timeout : Option Int64} {f : Nat → ServerProg β}
    (hsame : Unmoved v₀ (replicate m true) v)
    (hnext : ∀ v', Unmoved v₀ (opened m) v' → Holds (alone cfg k) (f (v₀.server.contexts.length + m)) v' last) :
    Holds (alone cfg k) (newContext sync timeout >>= f) v last := by
  refine ⟨trivial, trivial, ?_⟩
  rintro ctx v' ⟨⟨rfl, rfl⟩, _⟩
  have hctx : v.server.contexts.length = v₀.server.contexts.length + m := by
    rw [hsame.contexts, length_append, length_replicate]
  have hsame' : Unmoved v₀ (opened m) { v with server := { v.server with contexts := v.server.contexts ++ [false] } } := by
    refine ⟨hsame.holder, hsame.tasks, ?_, hsame.id⟩
    rw [opened, ← append_assoc, ← hsame.contexts]
  have hrest := hnext _ hsame'
  rw [← hctx] at hrest
  exact hrest

theorem holds_cancel {f : Unit → ServerProg β} (hsame : Unmoved v₀ (opened m) v)
    (hnext : ∀ v', Unmoved v₀ (replicate (m + 1) true) v' → v'.server.tree = v.server.tree → Holds (alone cfg k) (f ()) v' last) :
    Holds (alone cfg k) (cancel (v₀.server.contexts.length + m) >>= f) v last := by
  refine ⟨trivial, trivial, ?_⟩
  rintro r v' ⟨rfl, _⟩
  refine hnext _ ⟨hsame.holder, hsame.tasks, ?_, hsame.id⟩ rfl
  show v.server.contexts.set (v₀.server.contexts.length + m) true = _
  rw [hsame.contexts, opened, set_append_right _ _ (Nat.le_add_right _ _), Nat.add_sub_cancel_left,
    set_append_right _ _ (by rw [length_replicate]), length_replicate, Nat.sub_self,
    replicate_succ']
  rfl

def Contexts (v₀ : View) (taskDir : Bytes) (r : Except Refusal Scheduling) (v : View) : Prop :=
  match r with
  | .error _ => ∃ m, Unmoved v₀ (List.replicate m true) v ∧ NoEntry v.server.tree (place taskDir)
  | .ok scheduling => ∃ m, Unmoved v₀ (opened m) v ∧ scheduling.ctx = v₀.server.contexts.length + m

theorem holds_refuseParameter {err : Bytes} (hsame : Unmoved v₀ (opened m) v) :
    Holds (alone cfg k) (refuseParameter taskDir (v₀.server.contexts.length + m) err) v (Contexts v₀ taskDir) := by
  refine holds_cancel hsame fun v₁ hsame₁ _ => ?_
  refine holds_removeAll hsame₁ fun v₂ hsame₂ hclear => ?_
  exact holds_pure trivial ⟨m + 1, hsame₂, hclear⟩

theorem holds_readRetries {form : Form} (hsame : Unmoved v₀ (opened m) v) :
    Holds (alone cfg k) (readRetries taskDir form (v₀.server.contexts.length + m)) v (Contexts v₀ taskDir) := by
  rw [readRetries]
  split
  · exact holds_refuseParameter hsame
  · split
    · exact holds_refuseParameter hsame
    · exact holds_pure trivial ⟨m, hsame, rfl⟩

theorem holds_openContext {form : Form} {sync : Bool} (hsame : Unmoved v₀ [] v) :
    Holds (alone cfg k) (openContext taskDir form sync) v (Contexts v₀ taskDir) := by
  refine holds_newContext (m := 0) hsame fun v₁ hsame₁ => ?_
  split
  · exact holds_refuseParameter hsame₁
  · split_ifs
    · refine holds_cancel hsame₁ fun v₂ hsame₂ _ => ?_
      exact holds_newContext hsame₂ fun v₃ hsame₃ => holds_readRetries hsame₃
    · exact holds_readRetries hsame₁

/-! ### The store -/

structure Withdrawn (cfg : CreateConfig) (v₀ v : View) : Prop where
  holder : v.server.holder = v₀.server.holder
  tasks : v.server.tasks = v₀.server.tasks
  contexts : ∃ m, v.server.contexts = v₀.server.contexts ++ List.replicate m true
  dir : ∀ id, v.id = some id → NoEntry v.server.tree (place (cfg.taskDir id))

theorem Unmoved.withdrawn {id : Bytes} (hsame : Unmoved v₀ (replicate m true) v) (hid : v₀.id = some id)
    (hclear : NoEntry v.server.tree (place (cfg.taskDir id))) : Withdrawn cfg v₀ v where
  holder := hsame.holder
  tasks := hsame.tasks
  contexts := ⟨m, hsame.contexts⟩
  dir := by
    intro id' hid'
    rw [hsame.id, hid] at hid'
    rw [← Option.some.inj hid']
    exact hclear

def View.withTask (v : View) (task : NewTask) : View :=
  { v with server := { v.server with tasks := v.server.tasks ++ [task] } }

section Publish

variable {task : NewTask} (hnew : ∀ old ∈ v₀.server.tasks, old.id ≠ task.id)

include hnew

theorem others_kept : (v₀.server.tasks.filter fun old => old.id != task.id) = v₀.server.tasks := by
  refine filter_eq_self.2 ?_
  intro old hold
  exact bne_iff_ne.2 (hnew old hold)

theorem holds_storeAdd {f : Unit → ServerProg β} (hsame : Unmoved v₀ more v)
    (hnext : ∀ v', Unmoved (v₀.withTask task) more v' → Holds (alone cfg k) (f ()) v' last) :
    Holds (alone cfg k) (storeAdd task >>= f) v last := by
  refine ⟨trivial, trivial, ?_⟩
  rintro r v' ⟨rfl, _⟩
  refine hnext _ ⟨hsame.holder, ?_, hsame.contexts, hsame.id⟩
  show v.server.tasks.filter (fun old => old.id != task.id) ++ [task] = _
  rw [hsame.tasks, others_kept hnew]
  rfl

theorem holds_storeDelete {f : Option NewTask → ServerProg β} (hstored : Unmoved (v₀.withTask task) more v)
    (hnext : ∀ v', Unmoved v₀ more v' → Holds (alone cfg k) (f (some task)) v' last) :
    Holds (alone cfg k) (storeDelete task.id >>= f) v last := by
  refine ⟨trivial, trivial, ?_⟩
  rintro found v' ⟨⟨rfl, rfl⟩, _⟩
  have hfind : v.server.tasks.find? (fun old => old.id == task.id) = some task := by
    have hnone : v₀.server.tasks.find? (fun old => old.id == task.id) = none := by
      rw [find?_eq_none]
      intro old hold
      rw [beq_iff_eq]
      exact hnew old hold
    rw [hstored.tasks, View.withTask, find?_append, hnone, Option.none_or, find?_singleton, beq_self_eq_true]
    rfl
  rw [hfind]
  refine hnext _ ⟨hstored.holder, ?_, hstored.contexts, hstored.id⟩
  show v.server.tasks.filter (fun old => old.id != task.id) = _
  rw [hstored.tasks, View.withTask, filter_append, others_kept hnew, filter_cons_of_neg (by simp), filter_nil,
    append_nil]

theorem holds_cleanupTask (hstored : Unmoved (v₀.withTask task) more v) (hdir : task.spec.workDir = cfg.taskDir task.id)
    (hne : (trimSpace (cfg.taskDir task.id)).isEmpty = false) :
    Holds (alone cfg k) (cleanupTask task.id) v fun _ v' =>
      Unmoved v₀ more v' ∧ NoEntry v'.server.tree (place (cfg.taskDir task.id)) := by
  refine holds_storeDelete hnew hstored fun v₁ hsame₁ => ?_
  dsimp only
  rw [hdir, if_neg (by rw [hne]; decide)]
  exact ⟨trivial, trivial, fun _ v₂ hsem => ⟨trivial, hsame₁.performs rfl hsem.1, hsem.2⟩⟩

theorem holds_publish (hsame : Unmoved v₀ (opened m) v) (hctx : task.ctx = v₀.server.contexts.length + m)
    (hid : v₀.id = some task.id) (hdir : task.spec.workDir = cfg.taskDir task.id)
    (hne : (trimSpace (cfg.taskDir task.id)).isEmpty = false) :
    Holds (alone cfg k) (publish cfg task) v fun r v' => ∀ e, r = .error e → Withdrawn cfg v₀ v' := by
  refine holds_storeAdd hnew hsame fun v₁ hstored => ?_
  split_ifs
  · refine ⟨trivial, trivial, ?_⟩
    rintro r v₂ ⟨rfl, _⟩
    cases r with
    | ok a => exact holds_pure trivial nofun
    | error err =>
      have hlast : task.ctx = (v₀.withTask task).server.contexts.length + m := hctx
      rw [hlast]
      refine holds_cancel hstored fun v₃ hstored₃ _ => ?_
      have hdone : Only (fun o => o.onlyFiles = true) (finishTask task.id .canceled contextCanceled) := only_op rfl
      refine (holds_onlyFiles hdone hstored₃).bind fun _ v₄ hstored₄ _ => ?_
      have hclosed : Only (fun o => o.onlyFiles = true) (closeDone task.id) := only_op rfl
      refine (holds_onlyFiles hclosed hstored₄).bind fun _ v₅ hstored₅ _ => ?_
      refine (holds_cleanupTask hnew hstored₅ hdir hne).bind fun _ v₆ hcleared _ => ?_
      exact holds_pure trivial fun _ _ => hcleared.1.withdrawn hid hcleared.2
  · refine ⟨trivial, trivial, ?_⟩
    rintro r v₂ ⟨rfl, _⟩
    exact holds_pure trivial nofun

end Publish

/-! ### The handler -/

theorem holds_createIn {data : Vector UInt8 16} {remaining : Nat} (hsame : Unmoved v₀ [] v)
    (hid : v₀.id = some (hexEncode data.toList))
    (hnew : ∀ old ∈ v₀.server.tasks, old.id ≠ hexEncode data.toList) :
    Holds (alone cfg k) (createIn cfg lib (hexEncode data.toList) (cfg.taskDir (hexEncode data.toList)) contextParentDir
      parsed maxRequestBytes remaining) v fun r v' => ∀ e, r = .error e → Withdrawn cfg v₀ v' := by
  refine (holds_stageFiles hsame).attempt ?_ ?_
  · intro prepared v₁ hcleared _
    refine (holds_openContext hcleared.1).attempt ?_ ?_
    · rintro scheduling v₂ ⟨m, hopened, hctx⟩ _
      exact holds_publish hnew hopened hctx hid rfl (taskDir_ne_nil cfg data)
    · rintro e v₂ ⟨m, hsame₂, hclear⟩ _ _ _
      exact hsame₂.withdrawn hid hclear
  · intro e v₁ hcleared _ _ _
    exact Unmoved.withdrawn (m := 0) hcleared.1 hid (hcleared.2 e rfl)

theorem Unmoved.nothing (hsame : Unmoved v₀ [] v) (hid : v₀.id = none) : Withdrawn cfg v₀ v where
  holder := hsame.holder
  tasks := hsame.tasks
  contexts := ⟨0, hsame.contexts⟩
  dir := by
    intro id hid'
    rw [hsame.id, hid] at hid'
    cases hid'

theorem holds_createBuild (hid : v₀.id = none) :
    Holds (alone cfg k) (createBuild cfg lib) v₀ fun r v' => ∀ e, r = .error e → Withdrawn cfg v₀ v' := by
  refine (holds_onlyFiles (only_checkLimits rfl fun _ => rfl) (Unmoved.refl v₀)).attempt ?_ fun e v₁ hsame₁ _ _ _ => hsame₁.nothing hid
  intro remaining v₁ hsame₁ _
  refine (holds_onlyFiles (only_parseRequest fun _ => rfl) hsame₁).attempt ?_ fun e v₂ hsame₂ _ _ _ => hsame₂.nothing hid
  intro parsed v₂ hsame₂ _
  refine ⟨trivial, trivial, ?_⟩
  rintro (err | data) v₃ ⟨hperforms, _⟩
  · obtain rfl := hperforms
    exact holds_pure trivial fun _ _ => hsame₂.nothing hid
  · obtain ⟨hfresh, rfl⟩ := hperforms
    -- `v₃` is the request with its id; a failing `MkdirAll` leaves the new directory missing
    generalize hdrawn : ({ v₂ with
      server := { v₂.server with drawn := hexEncode data.toList :: v₂.server.drawn }
      id := some (hexEncode data.toList) } : View) = v₃
    have hid₃ : v₃.id = some (hexEncode data.toList) := by rw [← hdrawn]
    have htree₃ : v₃.server.tree = v₂.server.tree := by rw [← hdrawn]
    have hnew : ∀ old ∈ v₃.server.tasks, old.id ≠ hexEncode data.toList := by
      rw [← hdrawn]
      exact hfresh.task
    have hback : ∀ v', Withdrawn cfg v₃ v' → Withdrawn cfg v₀ v' := by
      rw [← hdrawn]
      rintro v' ⟨hholder, htasks, ⟨m, hcontexts⟩, hdir⟩
      refine ⟨hholder.trans hsame₂.holder, htasks.trans hsame₂.tasks, ⟨m, ?_⟩, hdir⟩
      rw [hcontexts, hsame₂.contexts, append_nil]
    refine ⟨trivial, trivial, ?_⟩
    rintro (err | made) v₄ ⟨hperforms, hreliable⟩
    · have hsame₄ : Unmoved v₃ [] v₄ := (Unmoved.refl v₃).performs rfl hperforms
      have hclear : NoEntry v₄.server.tree (place (cfg.taskDir (hexEncode data.toList))) := by
        have htree₄ : v₄.server.tree = v₃.server.tree := hreliable
        rw [htree₄, htree₃]
        exact hfresh.dir
      exact holds_pure trivial fun _ _ => hback v₄ (Unmoved.withdrawn (m := 0) hsame₄ hid₃ hclear)
    · have hsame₄ : Unmoved v₃ [] v₄ := (Unmoved.refl v₃).performs rfl hperforms
      exact (holds_createIn hsame₄ hid₃ hnew).mono fun r v' _ hrefused e he => hback v' (hrefused e he)

theorem holds_handleCreateBuild (hid : v₀.id = none) :
    Holds (alone cfg k) (handleCreateBuild cfg lib) v₀ fun answer v =>
      ∀ status error, answer = .refused status error → v.server.tasks = v₀.server.tasks ∧
        (∀ id, v.id = some id → NoEntry v.server.tree (place (cfg.taskDir id))) ∧ v.server.holder = none ∧
        ∃ m, v.server.contexts = v₀.server.contexts ++ replicate m true := by
  refine ⟨trivial, trivial, ?_⟩
  rintro r v₁ ⟨⟨_, hlocked⟩, _⟩
  have hid₁ : v₁.id = none := by
    rw [hlocked]
    exact hid
  refine (holds_createBuild hid₁).bind ?_
  intro created v₂ hcreated _
  refine ⟨trivial, trivial, ?_⟩
  rintro r' v₃ ⟨rfl, _⟩
  cases created with
  | ok task => exact holds_pure trivial nofun
  | error refusal =>
    refine holds_pure trivial ?_
    intro status error _
    obtain ⟨_, htasks, hcontexts, hdir⟩ := hcreated refusal rfl
    rw [hlocked] at htasks hcontexts
    exact ⟨htasks, hdir, rfl, hcontexts⟩

/-- A request that is refused has given back everything. -/
theorem refused_create_withdraws {answer : Answer}
    (hexec : Prog.Exec (fun v o r v' => Performs cfg k v o r v' ∧ Reliable v o r v') (handleCreateBuild cfg lib) v
      answer v') (hid : v.id = none) (hstatus : ∃ status, answer.status = some status ∧ 400 ≤ status) :
    v'.server.tasks = v.server.tasks ∧
      (∀ id, v'.id = some id → NoEntry v'.server.tree (place (cfg.taskDir id))) ∧ v'.server.holder = none ∧
      ∃ m, v'.server.contexts = v.server.contexts ++ List.replicate m true := by
  obtain ⟨_, rfl, _, hpost⟩ := (holds_handleCreateBuild hid).exec (R := Eq)
    (fun t s o r t' heq _ hsem => ⟨t', heq ▸ hsem, rfl⟩) hexec rfl
  obtain ⟨status, hanswer, herror⟩ := hstatus
  cases answer with
  | refused code error => exact hpost code error rfl
  | accepted task =>
    rw [Answer.status] at hanswer
    split_ifs at hanswer
    have hcode := Option.some.inj hanswer
    omega

/-! ### A closed scheduler -/

def reliablyAnswerable (cfg : CreateConfig) (env : Surroundings) (o : ServerOp) (v : View) : Bool :=
  answerable cfg env o v.server && match o with
    | .fs (.mkdirAll p) => (answer (.mkdirAll p) v.server.tree).1.isOk
    | _ => true

theorem respond_reliable {env : Surroundings} (o : ServerOp) (v : View)
    (hanswerable : reliablyAnswerable cfg env o v = true) :
    Performs cfg k v o (respond env k o v).1 (respond env k o v).2 ∧
      Reliable v o (respond env k o v).1 (respond env k o v).2 := by
  have hboth := Bool.and_eq_true_iff.1 hanswerable
  refine ⟨respond_performs o v hboth.1, ?_⟩
  cases o with
  | fs o =>
    cases o with
    | mkdirAll p =>
      show Reliable v (.fs (.mkdirAll p)) (answer (.mkdirAll p) v.server.tree).1 _
      have hok : (answer (.mkdirAll p) v.server.tree).1.isOk = true := hboth.2
      cases hmade : (answer (.mkdirAll p) v.server.tree).1 with
      | ok a => exact trivial
      | error err =>
        rw [hmade] at hok
        cases hok
    | removeAll p =>
      intro e he
      have hkept := (mem_filter.1 he).2
      rw [Bool.not_eq_true'] at hkept
      exact hkept
    | _ => exact trivial
  | _ => exact trivial

def sampleCreateConfig : CreateConfig where
  workDir := ascii "/work"
  maxRetainedTasks := 0
  maxWorkDirBytes := 1000
  maxRequestBytes := 0
  maxExtractedBytes := 0
  maxArchiveFiles := 0
  modes := some ⟨ascii "default", [(ascii "default", false)]⟩
  router := none
  scheduler := true

def sampleCreateLib : CreateLib where
  routing := sampleLib
  frontend := Dockerfile.catFrontend
  unmarshalTarget := fun raw => .ok raw

def sampleClosed : Surroundings where
  form := .ok ⟨[], [(ascii "timeout_seconds", [ascii "30"]), (ascii "image", [ascii "r1.io/a"])],
    some ⟨3, .ok (), ⟨ascii "zip", none, false⟩⟩⟩
  archive := .ok [plainFile (ascii "Dockerfile") (ascii "FROM alpine\n")]
  random := Vector.replicate 16 0xAB
  enqueued := .error (errorf errModeSchedulerClosed)

def sampleView : View where
  server := ⟨none, [], [false], Tree.empty.set (place (ascii "/work")) .dir, []⟩
  measured := none
  id := none

theorem refused_create_withdraws_closed :
    let after := Prog.run (respond sampleClosed 0) (handleCreateBuild sampleCreateConfig sampleCreateLib) sampleView
    after.1 = .refused 503 errModeSchedulerClosed ∧ after.2.server.tasks = sampleView.server.tasks ∧
      (∀ id, after.2.id = some id → NoEntry after.2.server.tree (place (sampleCreateConfig.taskDir id))) ∧
      after.2.server.holder = none ∧
      ∃ m, after.2.server.contexts = sampleView.server.contexts ++ List.replicate m true := by
  have hanswer : (Prog.run (respond sampleClosed 0) (handleCreateBuild sampleCreateConfig sampleCreateLib)
      sampleView).1 = .refused 503 errModeSchedulerClosed := by decide +kernel
  have henabled : Prog.enabledRun (respond sampleClosed 0) (reliablyAnswerable sampleCreateConfig sampleClosed)
      (handleCreateBuild sampleCreateConfig sampleCreateLib) sampleView = true := by decide +kernel
  have hexec : Prog.Exec (fun v o r v' => Performs sampleCreateConfig 0 v o r v' ∧ Reliable v o r v')
      (handleCreateBuild sampleCreateConfig sampleCreateLib) sampleView _ _ :=
    Prog.exec_run respond_reliable _ sampleView henabled
  have hstatus : ∃ status, (Prog.run (respond sampleClosed 0)
      (handleCreateBuild sampleCreateConfig sampleCreateLib) sampleView).1.status = some status ∧ 400 ≤ status :=
    ⟨503, by rw [hanswer]; rfl, by decide⟩
  exact ⟨hanswer, refused_create_withdraws
    hexec rfl hstatus⟩

end BuildkitService.Daemon
