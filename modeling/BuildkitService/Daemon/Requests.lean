import BuildkitService.Daemon.Limits
import BuildkitService.Lib.Threads
import Mathlib.Logic.Relation

/-!
# Create requests side by side

Any number of create requests, with cancellations and the reaper.
-/

namespace BuildkitService.Daemon

open Strings Files Archive Prog Threads
open List hiding Vector

structure Request where
  rest : ServerProg Answer
  measured : Option Nat
  id : Option Bytes

structure Requests where
  server : Server
  requests : List Request
  /-- The directories of deleted tasks that the reaper has yet to remove. -/
  expired : List Bytes

def Requests.view (s : Requests) (req : Request) : View := ⟨s.server, req.measured, req.id⟩

def workDirs (tasks : List NewTask) : List Bytes :=
  (tasks.map fun task => task.spec.workDir).filter fun dir => !(trimSpace dir).isEmpty

inductive Requests.Step (cfg : CreateConfig) (lib : CreateLib) : Requests → Requests → Prop
  | arrive (s : Requests) :
      Step cfg lib s { s with requests := s.requests ++ [⟨handleCreateBuild cfg lib, none, none⟩] }
  | call {s : Requests} {k : Nat} {req : Request} {o : ServerOp} {next : ServerRes o → ServerProg Answer}
      {r : ServerRes o} {v : View} (hreq : s.requests[k]? = some req) (hrest : req.rest = .call o next)
      (hperforms : Performs cfg k (s.view req) o r v) :
      Step cfg lib s { s with server := v.server, requests := s.requests.set k ⟨next r, v.measured, v.id⟩ }
  /-- `store.cancel`, which ends the context of a task. -/
  | cancel {s : Requests} {task : NewTask} (htask : task ∈ s.server.tasks) :
      Step cfg lib s { s with server := { s.server with contexts := s.server.contexts.set task.ctx true } }
  /-- `store.deleteExpired`. -/
  | expire (s : Requests) (gone : NewTask → Bool) :
      Step cfg lib s { s with
        server := { s.server with tasks := s.server.tasks.filter fun task => !gone task }
        expired := s.expired ++ workDirs (s.server.tasks.filter gone) }
  | removeDir {s : Requests} {dir : Bytes} {t : Tree} (hdir : dir ∈ s.expired)
      (hdoes : Does s.server.tree (.removeAll dir) () t) :
      Step cfg lib s { s with server := { s.server with tree := t }, expired := s.expired.erase dir }

def Requests.start (t : Tree) : Requests := ⟨⟨none, [], [], t, []⟩, [], []⟩

/-! ### Where a request is -/

def leave (created : Except Refusal NewTask) : ServerProg Answer := do
  let () ← unlockAdmission
  match created with
  | .error refusal => pure (.refused refusal.status refusal.error)
  | .ok task => pure (.accepted task)

variable {cfg : CreateConfig} {lib : CreateLib} {k : Nat} {s s' : Requests} {req : Request}
  {server server' : Server} {o : ServerOp}

theorem handleCreateBuild_eq :
    handleCreateBuild cfg lib = .call .lockAdmission fun _ => createBuild cfg lib >>= leave := rfl

theorem leave_eq (created : Except Refusal NewTask) :
    ∃ answer, leave created = .call .unlockAdmission fun _ => .done answer := by
  cases created with
  | ok task => exact ⟨.accepted task, rfl⟩
  | error refusal => exact ⟨.refused refusal.status refusal.error, rfl⟩

inductive Phase (cfg : CreateConfig) (lib : CreateLib) (server : Server) (k : Nat) (req : Request) : Prop
  | waiting (hrest : req.rest = handleCreateBuild cfg lib) (hid : req.id = none)
  | inside {p : ServerProg (Except Refusal NewTask)} {before : Server} (hrest : req.rest = p >>= leave)
      (hholder : server.holder = some k) (hshrunk : Shrunk before server)
      (hholds : Holds (locked cfg k) p ⟨before, req.measured, req.id⟩ fun _ _ => True)
  | ended {answer : Answer} (hrest : req.rest = .done answer)

theorem Phase.shrunk (hphase : Phase cfg lib server k req) (hshrunk : Shrunk server server') :
    Phase cfg lib server' k req := by
  cases hphase with
  | waiting hrest hid => exact .waiting hrest hid
  | inside hrest hholder hbefore hholds =>
    exact .inside hrest (hshrunk.holder.trans hholder) (hbefore.trans hshrunk) hholds
  | ended hrest => exact .ended hrest

theorem Phase.elsewhere (hphase : Phase cfg lib server k req) (hholder : server.holder ≠ some k) :
    Phase cfg lib server' k req := by
  cases hphase with
  | waiting hrest hid => exact .waiting hrest hid
  | inside _ hown _ _ => exact absurd hown hholder
  | ended hrest => exact .ended hrest

/-! ### Ids -/

def IsId (id : Bytes) : Prop := ∃ data : Vector UInt8 16, id = hexEncode data.toList

theorem not_under_other {id id' : Bytes} {there : Place} (hid : IsId id) (hid' : IsId id') (hne : id ≠ id')
    (hunder : (place (cfg.taskDir id)).under there = true) : (place (cfg.taskDir id')).under there = false := by
  have hplace : ∀ {name : Bytes}, IsId name →
      (place (cfg.taskDir name)).comps = (place cfg.workDir).comps ++ [name] := by
    rintro name ⟨data, rfl⟩
    obtain ⟨hpart, hname, _⟩ := id_named data
    rw [CreateConfig.taskDir, place_join hpart hname]
  rw [← Bool.not_eq_true]
  intro hunder'
  have hfirst := (Place.under_iff.1 hunder).2
  have hsecond := (Place.under_iff.1 hunder').2
  rw [hplace hid] at hfirst
  rw [hplace hid'] at hsecond
  have hlength : ((place cfg.workDir).comps ++ [id]).length = ((place cfg.workDir).comps ++ [id']).length := by
    rw [length_append, length_append, length_singleton, length_singleton]
  have hsame := (prefix_of_prefix_length_le hfirst hsecond hlength.le).eq_of_length hlength
  exact hne (singleton_inj.1 (append_cancel_left hsame))

/-! ### What the holder of the lock leaves to others -/

variable {v v' : View}

structure Spares (cfg : CreateConfig) (v v' : View) : Prop where
  holder : v'.server.holder = v.server.holder
  tasks : v.server.tasks.length ≤ cfg.retainedTasks → v'.server.tasks.length ≤ cfg.retainedTasks
  drawn : v'.server.drawn = v.server.drawn ∧ v'.id = v.id ∨
    ∃ id, IsId id ∧ id ∉ v.server.drawn ∧ v'.server.drawn = id :: v.server.drawn ∧ v'.id = some id
  sizes : (∀ id, v.id = some id → IsId id) → ∀ id', IsId id' → v.id ≠ some id' →
    v'.server.tree.sizeUnder (place (cfg.taskDir id')) ≤ v.server.tree.sizeUnder (place (cfg.taskDir id'))

theorem spares_of_allowed {r : ServerRes o} (hallowed : Allowed cfg v o) (hperforms : Performs cfg k v o r v') :
    Spares cfg v v' := by
  cases hperforms.outcome with
  | asked | measured | opened | cancelled | undrawn => exact ⟨rfl, id, .inl ⟨rfl, rfl⟩, fun _ _ _ _ => le_rfl⟩
  | locked | unlocked => exact hallowed.elim
  | deleted name =>
    exact ⟨rfl, (length_filter_le _ _).trans, .inl ⟨rfl, rfl⟩, fun _ _ _ _ => le_rfl⟩
  | added task =>
    refine ⟨rfl, ?_, .inl ⟨rfl, rfl⟩, fun _ _ _ _ => le_rfl⟩
    intro _
    have hroom : v.server.tasks.length < cfg.retainedTasks := hallowed
    have hothers := length_filter_le (fun old => old.id != task.id) v.server.tasks
    show (v.server.tasks.filter (fun old => old.id != task.id) ++ [task]).length ≤ _
    rw [length_append, length_singleton]
    omega
  | drawn data hfresh =>
    exact ⟨rfl, id, .inr ⟨_, ⟨data, rfl⟩, hfresh.drawn, rfl, rfl⟩, fun _ _ _ _ => le_rfl⟩
  | @files o r' t hdoes =>
    refine ⟨rfl, id, .inl ⟨rfl, rfl⟩, ?_⟩
    intro hown id' hid' hne
    have hsize := hdoes.sizeUnder_le (place (cfg.taskDir id'))
    have hgrowth : FsOp.growth (place (cfg.taskDir id')) o = 0 := by
      cases o with
      | write p b =>
        obtain ⟨id, hid, hunder⟩ := hallowed p b rfl
        have hother := not_under_other (hown id hid) hid' (fun heq => hne (heq ▸ hid)) hunder
        rw [FsOp.growth, hother]
        rfl
      | _ => rfl
    rwa [hgrowth] at hsize

theorem Allowed.shrunk {measured : Option Nat} {id : Option Bytes}
    (hallowed : Allowed cfg ⟨server, measured, id⟩ o) (hshrunk : Shrunk server server') :
    Allowed cfg ⟨server', measured, id⟩ o := by
  cases o with
  | storeAdd task => exact Nat.lt_of_le_of_lt hshrunk.tasks hallowed
  | _ => exact hallowed

/-! ### The invariant -/

structure Limited (cfg : CreateConfig) (lib : CreateLib) (s : Requests) : Prop where
  count : s.server.tasks.length ≤ cfg.retainedTasks
  phase : ∀ (k : Nat) (req : Request), s.requests[k]? = some req → Phase cfg lib s.server k req
  within : ∀ (k : Nat) (req : Request), s.requests[k]? = some req → Within cfg (s.view req)
  ids : ∀ id ∈ s.server.drawn, IsId id
  drawn : ∀ (k : Nat) (req : Request), s.requests[k]? = some req → ∀ id, req.id = some id → id ∈ s.server.drawn
  distinct : ∀ (k k' : Nat) (req req' : Request), s.requests[k]? = some req → s.requests[k']? = some req' →
    ∀ id, req.id = some id → req'.id = some id → k = k'

theorem limited_start (t : Tree) : Limited cfg lib (Requests.start t) where
  count := Nat.zero_le _
  phase := nofun
  within := nofun
  ids := nofun
  drawn := nofun
  distinct := nofun

section

variable (hlimited : Limited cfg lib s)

include hlimited

theorem Limited.arrive :
    Limited cfg lib { s with requests := s.requests ++ [⟨handleCreateBuild cfg lib, none, none⟩] } where
  count := hlimited.count
  phase := by
    intro k req hreq
    rcases getElem?_snoc hreq with hold | ⟨_, rfl⟩
    · exact hlimited.phase k req hold
    · exact .waiting rfl rfl
  within := by
    intro k req hreq
    rcases getElem?_snoc hreq with hold | ⟨_, rfl⟩
    · exact hlimited.within k req hold
    · exact nofun
  ids := hlimited.ids
  drawn := by
    intro k req hreq id hid
    rcases getElem?_snoc hreq with hold | ⟨_, rfl⟩
    · exact hlimited.drawn k req hold id hid
    · cases hid
  distinct := by
    intro k k' req req' hreq hreq' id hid hid'
    rcases getElem?_snoc hreq with hold | ⟨_, rfl⟩
    · rcases getElem?_snoc hreq' with hold' | ⟨_, rfl⟩
      · exact hlimited.distinct k k' req req' hold hold' id hid hid'
      · cases hid'
    · cases hid

theorem Limited.shrunk {expired : List Bytes}
    (hshrunk : Shrunk s.server server) : Limited cfg lib { s with server := server, expired := expired } where
  count := hshrunk.tasks.trans hlimited.count
  phase := fun k req hreq => (hlimited.phase k req hreq).shrunk hshrunk
  within := by
    intro k req hreq
    refine (hlimited.within k req hreq).of_put_le rfl rfl (put_le_put rfl ?_)
    intro id _
    exact hshrunk.sizeUnder_le _
  ids := by
    intro id hid
    have hold : id ∈ s.server.drawn := hshrunk.drawn ▸ hid
    exact hlimited.ids id hold
  drawn := by
    intro k req hreq id hid
    show id ∈ server.drawn
    rw [hshrunk.drawn]
    exact hlimited.drawn k req hreq id hid
  distinct := hlimited.distinct

theorem Limited.relock {holder : Option Nat} {rest : ServerProg Answer}
    (hreq : s.requests[k]? = some req) (hlock : ∀ j, s.server.holder = some j → j = k)
    (hphase : Phase cfg lib { s.server with holder := holder } k ⟨rest, req.measured, req.id⟩) :
    Limited cfg lib { s with
      server := { s.server with holder := holder }
      requests := s.requests.set k ⟨rest, req.measured, req.id⟩ } := by
  -- each request is as before but for the rest of `k`
  have hbefore : ∀ {j : Nat} {req' : Request}, (s.requests.set k ⟨rest, req.measured, req.id⟩)[j]? = some req' →
      ∃ old, s.requests[j]? = some old ∧ req'.measured = old.measured ∧ req'.id = old.id := by
    intro j req' hreq'
    rcases getElem?_set_cases hreq' with ⟨rfl, rfl⟩ | ⟨_, hold⟩
    · exact ⟨req, hreq, rfl, rfl⟩
    · exact ⟨req', hold, rfl, rfl⟩
  refine ⟨hlimited.count, ?_, ?_, hlimited.ids, ?_, ?_⟩
  · intro j req' hreq'
    rcases getElem?_set_cases hreq' with ⟨rfl, rfl⟩ | ⟨hne, hold⟩
    · exact hphase
    · exact (hlimited.phase j req' hold).elsewhere fun hholder => hne (hlock j hholder)
  · intro j req' hreq'
    obtain ⟨old, hold, hmeasured, hid⟩ := hbefore hreq'
    exact (hlimited.within j old hold).of_put_le hmeasured hid (put_le_put hid fun _ _ => le_rfl)
  · intro j req' hreq' id hid
    obtain ⟨old, hold, _, hsame⟩ := hbefore hreq'
    exact hlimited.drawn j old hold id (hsame.symm.trans hid)
  · intro j j' req₁ req₂ hreq₁ hreq₂ id hid₁ hid₂
    obtain ⟨old₁, hold₁, _, hsame₁⟩ := hbefore hreq₁
    obtain ⟨old₂, hold₂, _, hsame₂⟩ := hbefore hreq₂
    exact hlimited.distinct j j' old₁ old₂ hold₁ hold₂ id (hsame₁.symm.trans hid₁) (hsame₂.symm.trans hid₂)

theorem Limited.inside {rest : ServerProg Answer} (hreq : s.requests[k]? = some req)
    (hholder : s.server.holder = some k) (hspares : Spares cfg (s.view req) v) (hnow : Within cfg v)
    (hphase : Phase cfg lib v.server k ⟨rest, v.measured, v.id⟩) :
    Limited cfg lib { s with server := v.server, requests := s.requests.set k ⟨rest, v.measured, v.id⟩ } := by
  have hown : ∀ id, req.id = some id → IsId id := fun id hid => hlimited.ids id (hlimited.drawn k req hreq id hid)
  have hkept : ∀ id, id ∈ s.server.drawn → id ∈ v.server.drawn := by
    intro id hid
    rcases hspares.drawn with ⟨hsame, _⟩ | ⟨fresh, _, _, hmore, _⟩
    · rw [hsame]
      exact hid
    · rw [hmore]
      exact mem_cons_of_mem _ hid
  -- another request does not come to have the id of `k`
  have hother : ∀ (j : Nat) (req' : Request), j ≠ k → s.requests[j]? = some req' →
      ∀ id, req'.id = some id → v.id ≠ some id := by
    intro j req' hne hreq' id hid hid'
    rcases hspares.drawn with ⟨_, hsame⟩ | ⟨fresh, _, hfresh, _, hnew⟩
    · exact hne (hlimited.distinct j k req' req hreq' hreq id hid (hsame.symm.trans hid'))
    · obtain rfl : fresh = id := Option.some.inj (hnew.symm.trans hid')
      exact hfresh (hlimited.drawn j req' hreq' fresh hid)
  refine ⟨hspares.tasks hlimited.count, ?_, ?_, ?_, ?_, ?_⟩
  · intro j req' hreq'
    rcases getElem?_set_cases hreq' with ⟨rfl, rfl⟩ | ⟨hne, hold⟩
    · exact hphase
    · refine (hlimited.phase j req' hold).elsewhere ?_
      intro hholder'
      exact hne (Option.some.inj (hholder'.symm.trans hholder))
  · intro j req' hreq'
    rcases getElem?_set_cases hreq' with ⟨rfl, rfl⟩ | ⟨hne, hold⟩
    · exact hnow
    · refine (hlimited.within j req' hold).of_put_le rfl rfl (put_le_put rfl ?_)
      intro id hid
      have hdrawn := hlimited.drawn j req' hold id hid
      refine hspares.sizes hown id (hlimited.ids id hdrawn) ?_
      intro hsame
      exact hne (hlimited.distinct j k req' req hold hreq id hid hsame)
  · intro id hid
    rcases hspares.drawn with ⟨hsame, _⟩ | ⟨fresh, hfresh, _, hmore, _⟩
    · exact hlimited.ids id (hsame ▸ hid)
    · have hid' : id ∈ fresh :: s.server.drawn := hmore ▸ hid
      rcases mem_cons.1 hid' with rfl | hold
      · exact hfresh
      · exact hlimited.ids id hold
  · intro j req' hreq' id hid
    rcases getElem?_set_cases hreq' with ⟨rfl, rfl⟩ | ⟨_, hold⟩
    · rcases hspares.drawn with ⟨_, hsame⟩ | ⟨fresh, _, _, hmore, hnew⟩
      · exact hkept id (hlimited.drawn j req hreq id (hsame.symm.trans hid))
      · obtain rfl : fresh = id := Option.some.inj (hnew.symm.trans hid)
        show fresh ∈ v.server.drawn
        rw [hmore]
        exact mem_cons_self
    · exact hkept id (hlimited.drawn j req' hold id hid)
  · intro j j' req₁ req₂ hreq₁ hreq₂ id hid₁ hid₂
    rcases getElem?_set_cases hreq₁ with ⟨rfl, rfl⟩ | ⟨hne₁, hold₁⟩
    · rcases getElem?_set_cases hreq₂ with ⟨rfl, rfl⟩ | ⟨hne₂, hold₂⟩
      · rfl
      · exact absurd hid₁ (hother j' req₂ hne₂ hold₂ id hid₂)
    · rcases getElem?_set_cases hreq₂ with ⟨rfl, rfl⟩ | ⟨_, hold₂⟩
      · exact absurd hid₂ (hother j req₁ hne₁ hold₁ id hid₁)
      · exact hlimited.distinct j j' req₁ req₂ hold₁ hold₂ id hid₁ hid₂

theorem Limited.call {next : ServerRes o → ServerProg Answer} {r : ServerRes o}
    (hreq : s.requests[k]? = some req) (hrest : req.rest = .call o next)
    (hperforms : Performs cfg k (s.view req) o r v) :
    Limited cfg lib { s with server := v.server, requests := s.requests.set k ⟨next r, v.measured, v.id⟩ } := by
  cases hlimited.phase k req hreq with
  | waiting hwaiting hid =>
    cases hrest.symm.trans (hwaiting.trans handleCreateBuild_eq)
    obtain ⟨hfree, rfl⟩ := hperforms
    refine hlimited.relock hreq ?_ (.inside rfl rfl (Shrunk.refl _) (limited_createBuild hid))
    intro j hholder
    have hnone : s.server.holder = none := hfree
    rw [hnone] at hholder
    cases hholder
  | @inside p before hinside hholder hshrunk hholds =>
    cases p with
    | done created =>
      -- the lock is given back
      obtain ⟨answer, hleave⟩ := leave_eq created
      cases hrest.symm.trans (hinside.trans hleave)
      obtain rfl := hperforms
      refine hlimited.relock hreq ?_ (.ended rfl)
      intro j hholder'
      exact Option.some.inj (hholder'.symm.trans hholder)
    | call o' next' =>
      cases hrest.symm.trans hinside
      have hspares := spares_of_allowed (hholds.2.1.shrunk hshrunk) hperforms
      have hnext := hholds.2.2 r v ⟨s.server, hshrunk, hperforms⟩
      exact hlimited.inside hreq hholder hspares hnext.now
        (.inside rfl (hspares.holder.trans hholder) (Shrunk.refl _) hnext)
  | ended hended => cases hrest.symm.trans hended

theorem limited_step (hstep : Requests.Step cfg lib s s') : Limited cfg lib s' := by
  cases hstep with
  | arrive => exact hlimited.arrive
  | call hreq hrest hperforms => exact hlimited.call hreq hrest hperforms
  | cancel htask => exact hlimited.shrunk ⟨rfl, le_rfl, rfl, (Shrunk.refl _).tree⟩
  | expire gone => exact hlimited.shrunk ⟨rfl, length_filter_le _ _, rfl, (Shrunk.refl _).tree⟩
  | removeDir _ hdoes =>
    obtain ⟨kept, _, rfl⟩ := hdoes
    exact hlimited.shrunk ⟨rfl, le_rfl, rfl, kept, rfl⟩

end

theorem limited_run {t : Tree} (hrun : Relation.ReflTransGen (Requests.Step cfg lib) (Requests.start t) s) :
    Limited cfg lib s := by
  induction hrun with
  | refl => exact limited_start t
  | tail _ hstep ih => exact limited_step ih hstep

theorem Limited.adds_locked {task : NewTask} {next : Unit → ServerProg Answer} (hlimited : Limited cfg lib s)
    (hreq : s.requests[k]? = some req) (hrest : req.rest = .call (.storeAdd task) next) :
    s.server.holder = some k := by
  cases hlimited.phase k req hreq with
  | waiting hwaiting _ => cases hrest.symm.trans (hwaiting.trans handleCreateBuild_eq)
  | inside _ hholder _ _ => exact hholder
  | ended hended => cases hrest.symm.trans hended

theorem added_by_request {task : NewTask} (hstep : Requests.Step cfg lib s s') (hafter : task ∈ s'.server.tasks)
    (hbefore : task ∉ s.server.tasks) : ∃ (k : Nat) (req : Request) (next : Unit → ServerProg Answer),
      s.requests[k]? = some req ∧ req.rest = .call (.storeAdd task) next := by
  cases hstep with
  | arrive | cancel | removeDir => exact absurd hafter hbefore
  | expire gone => exact absurd (mem_filter.1 hafter).1 hbefore
  | @call k req o next r v hreq hrest hperforms =>
    cases hperforms.outcome with
    | added new =>
      rcases mem_append.1 hafter with hold | hnew
      · exact absurd (mem_filter.1 hold).1 hbefore
      · obtain rfl := mem_singleton.1 hnew
        exact ⟨k, req, next, hreq, hrest⟩
    | deleted id => exact absurd (mem_filter.1 hafter).1 hbefore
    | _ => exact absurd hafter hbefore

/-- Every run keeps to the limits of the store and of the work directory. -/
theorem admission_keeps_limits {t : Tree}
    (hrun : Relation.ReflTransGen (Requests.Step cfg lib) (Requests.start t) s) :
    s.server.tasks.length ≤ cfg.retainedTasks ∧
      (∀ req ∈ s.requests, ∀ held, req.measured = some held →
        held < cfg.workDirBytes ∧ held + (s.view req).put cfg ≤ cfg.workDirBytes ∨
          cfg.workDirBytes ≤ held ∧ req.id = none) ∧
      ∀ s', Requests.Step cfg lib s s' → ∀ task ∈ s'.server.tasks, task ∉ s.server.tasks →
        ∃ (k : Nat) (req : Request) (next : Unit → ServerProg Answer), s.server.holder = some k ∧
          s.requests[k]? = some req ∧ req.rest = .call (.storeAdd task) next := by
  have hlimited := limited_run hrun
  refine ⟨hlimited.count, ?_, ?_⟩
  · intro req hreq
    obtain ⟨k, hk⟩ := List.getElem?_of_mem hreq
    exact hlimited.within k req hk
  · intro s' hstep task hafter hbefore
    obtain ⟨k, req, next, hreq, hrest⟩ := added_by_request hstep hafter hbefore
    exact ⟨k, req, next, hlimited.adds_locked hreq hrest, hreq, hrest⟩

/-! ### One place in the store -/

def Requests.finish (env : Surroundings) (k : Nat) (req : Request) (s : Requests) : Requests :=
  let out := Prog.run (respond env k) req.rest (s.view req)
  { s with server := out.2.server, requests := s.requests.set k ⟨.done out.1, out.2.measured, out.2.id⟩ }

theorem run_finish {env : Surroundings} (hreq : s.requests[k]? = some req)
    (henabled : enabledRun (respond env k) (fun o v => answerable cfg env o v.server) req.rest (s.view req) = true) :
    Relation.ReflTransGen (Requests.Step cfg lib) s (s.finish env k req) := by
  obtain ⟨rest, measured, id⟩ := req
  dsimp only at henabled
  induction rest generalizing s measured id with
  | done answer =>
    have hsame : s.requests.set k ⟨.done answer, measured, id⟩ = s.requests := by
      obtain ⟨hlt, heq⟩ := List.getElem?_eq_some_iff.1 hreq
      rw [← heq]
      exact set_getElem_self hlt
    have hfinish : s.finish env k ⟨.done answer, measured, id⟩ = s := by
      show { s with requests := s.requests.set k ⟨.done answer, measured, id⟩ } = s
      rw [hsame]
    rw [hfinish]
  | call o next ih =>
    rw [enabledRun, Bool.and_eq_true] at henabled
    have hperforms := respond_performs o (s.view ⟨.call o next, measured, id⟩) henabled.1 (k := k)
    generalize hview : (respond env k o (s.view ⟨.call o next, measured, id⟩)).2 = v at henabled hperforms
    generalize hanswer : (respond env k o (s.view ⟨.call o next, measured, id⟩)).1 = r at henabled hperforms
    generalize hafter : ({ s with server := v.server, requests := s.requests.set k ⟨next r, v.measured, v.id⟩ } :
      Requests) = after
    have hfirst : Requests.Step cfg lib s after := hafter ▸ .call hreq rfl hperforms
    have hreq' : after.requests[k]? = some ⟨next r, v.measured, v.id⟩ := by
      rw [← hafter]
      exact getElem?_set_self (List.getElem?_eq_some_iff.1 hreq).1
    have hview' : after.view ⟨next r, v.measured, v.id⟩ = v := by rw [← hafter]; rfl
    have hrest := ih r v.measured v.id hreq' (by rw [hview']; exact henabled.2)
    have hfinish : after.finish env k ⟨next r, v.measured, v.id⟩ = s.finish env k ⟨.call o next, measured, id⟩ := by
      have hsame : run (respond env k) (.call o next) (s.view ⟨.call o next, measured, id⟩) =
          run (respond env k) (next r) v := by
        show run (respond env k) (next (respond env k o _).1) (respond env k o _).2 = _
        rw [hview, hanswer]
      rw [Requests.finish, Requests.finish, hview', hsame, ← hafter]
      dsimp only
      rw [set_set]
    rw [hfinish] at hrest
    exact (Relation.ReflTransGen.single hfirst).trans hrest

def sampleLimits : CreateConfig := { sampleCreateConfig with maxRetainedTasks := 1, maxWorkDirBytes := 21 }

def sampleOld : Tree :=
  (Tree.empty.set (place (ascii "/work")) .dir).set (place (ascii "/work/old")) (.file (ascii "12345"))

def sampleOpen : Surroundings := { sampleClosed with enqueued := .ok () }

def sampleArrival : Request := ⟨handleCreateBuild sampleLimits sampleCreateLib, none, none⟩

def sampleFirst : Requests :=
  ({ Requests.start sampleOld with requests := [sampleArrival] } : Requests).finish sampleOpen 0 sampleArrival

def sampleSecond : Requests :=
  ({ sampleFirst with requests := sampleFirst.requests ++ [sampleArrival] } : Requests).finish sampleOpen 1 sampleArrival

theorem sampleFirst_reached :
    Relation.ReflTransGen (Requests.Step sampleLimits sampleCreateLib) (Requests.start sampleOld) sampleFirst := by
  have harrive : Requests.Step sampleLimits sampleCreateLib (Requests.start sampleOld)
      { Requests.start sampleOld with requests := [sampleArrival] } := .arrive _
  refine (Relation.ReflTransGen.single harrive).trans (run_finish rfl ?_)
  decide +kernel

theorem sampleSecond_reached :
    Relation.ReflTransGen (Requests.Step sampleLimits sampleCreateLib) (Requests.start sampleOld) sampleSecond := by
  have harrive : Requests.Step sampleLimits sampleCreateLib sampleFirst
      { sampleFirst with requests := sampleFirst.requests ++ [sampleArrival] } := .arrive _
  refine (sampleFirst_reached.tail harrive).trans (run_finish rfl ?_)
  decide +kernel

theorem admission_keeps_limits_full :
    sampleSecond.server.tasks.length = 1 ∧ sampleLimits.retainedTasks = 1 ∧
      (sampleSecond.requests.map fun req => (req.measured, (sampleSecond.view req).put sampleLimits)) =
        [(some 5, 15), (none, 0)] ∧
      sampleSecond.server.tasks.length ≤ sampleLimits.retainedTasks ∧
      (∀ req ∈ sampleSecond.requests, ∀ held, req.measured = some held →
        held < sampleLimits.workDirBytes ∧ held + (sampleSecond.view req).put sampleLimits ≤ sampleLimits.workDirBytes ∨
          sampleLimits.workDirBytes ≤ held ∧ req.id = none) :=
  ⟨by decide +kernel, rfl, by decide +kernel, (admission_keeps_limits sampleSecond_reached).1,
    (admission_keeps_limits sampleSecond_reached).2.1⟩

end BuildkitService.Daemon
