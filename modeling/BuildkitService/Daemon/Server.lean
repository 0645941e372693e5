import BuildkitService.Daemon.Create
import BuildkitService.Lib.Storage

/-!
# The server under the create handler

What the operations of `handleCreateBuild` do: the admission lock with the request that holds it,
the task store, the contexts with whether they are cancelled, and the files.
-/

namespace BuildkitService.Daemon

open Strings Files Archive Path
open List hiding Vector

structure Server where
  holder : Option Nat
  tasks : List NewTask
  contexts : List Bool
  tree : Tree
  /-- The ids that were drawn so far. -/
  drawn : List Bytes

structure View where
  server : Server
  measured : Option Nat
  id : Option Bytes

def NoEntry (t : Tree) (top : Place) : Prop := ∀ e ∈ t.entries, top.under e.1 = false

def CreateConfig.taskDir (cfg : CreateConfig) (id : Bytes) : Bytes := Path.join cfg.workDir id

structure Fresh (cfg : CreateConfig) (s : Server) (id : Bytes) : Prop where
  drawn : id ∉ s.drawn
  task : ∀ task ∈ s.tasks, task.id ≠ id
  dir : NoEntry s.tree (place (cfg.taskDir id))

def Performs (cfg : CreateConfig) (k : Nat) (v : View) : (o : ServerOp) → ServerRes o → View → Prop
  | .lockAdmission, _, v' => v.server.holder = none ∧ v' = { v with server := { v.server with holder := some k } }
  | .unlockAdmission, _, v' => v' = { v with server := { v.server with holder := none } }
  | .storeLen, r, v' => r = v.server.tasks.length ∧ v' = v
  | .storeAdd task, _, v' =>
      v' = { v with server := { v.server with tasks := v.server.tasks.filter (fun old => old.id != task.id) ++ [task] } }
  | .storeDelete id, r, v' =>
      r = v.server.tasks.find? (fun task => task.id == id) ∧
        v' = { v with server := { v.server with tasks := v.server.tasks.filter fun task => task.id != id } }
  | .newContext _ _, r, v' =>
      r = v.server.contexts.length ∧
        v' = { v with server := { v.server with contexts := v.server.contexts ++ [false] } }
  | .cancel ctx, _, v' => v' = { v with server := { v.server with contexts := v.server.contexts.set ctx true } }
  | .walkDir .sizes _, r, v' => v' = { v with measured := (sumSizes r 0).toOption }
  | .readRandom, .ok data, v' =>
      Fresh cfg v.server (hexEncode data.toList) ∧
        v' = { v with
          server := { v.server with drawn := hexEncode data.toList :: v.server.drawn }
          id := some (hexEncode data.toList) }
  | .readRandom, .error _, v' => v' = v
  | .fs o, r, v' => ∃ t, Does v.server.tree o r t ∧ v' = { v with server := { v.server with tree := t } }
  | _, _, v' => v' = v

def ServerOp.asks : ServerOp → Bool
  | .storeLen | .finishTask _ _ _ | .closeDone _ | .walkDir .files _ | .parseMultipartForm _ | .enqueue _ _
  | .runBuildTask _ | .openZip _ | .hashFile _ => true
  | _ => false

inductive Outcome (cfg : CreateConfig) (k : Nat) (v : View) : ServerOp → View → Prop
  | asked {o : ServerOp} (hasks : o.asks = true) : Outcome cfg k v o v
  | locked (hfree : v.server.holder = none) :
      Outcome cfg k v .lockAdmission { v with server := { v.server with holder := some k } }
  | unlocked : Outcome cfg k v .unlockAdmission { v with server := { v.server with holder := none } }
  | added (task : NewTask) : Outcome cfg k v (.storeAdd task)
      { v with server := { v.server with tasks := v.server.tasks.filter (fun old => old.id != task.id) ++ [task] } }
  | deleted (id : Bytes) : Outcome cfg k v (.storeDelete id)
      { v with server := { v.server with tasks := v.server.tasks.filter fun task => task.id != id } }
  | opened {sync : Bool} {timeout : Option Int64} : Outcome cfg k v (.newContext sync timeout)
      { v with server := { v.server with contexts := v.server.contexts ++ [false] } }
  | cancelled {ctx : Nat} : Outcome cfg k v (.cancel ctx)
      { v with server := { v.server with contexts := v.server.contexts.set ctx true } }
  | measured {root : Bytes} (bytes : Option Nat) : Outcome cfg k v (.walkDir .sizes root) { v with measured := bytes }
  | undrawn : Outcome cfg k v .readRandom v
  | drawn (data : Vector UInt8 16) (hfresh : Fresh cfg v.server (hexEncode data.toList)) : Outcome cfg k v .readRandom
      { v with
        server := { v.server with drawn := hexEncode data.toList :: v.server.drawn }
        id := some (hexEncode data.toList) }
  | files {o : FsOp} {r : FsRes o} {t : Tree} (hdoes : Does v.server.tree o r t) :
      Outcome cfg k v (.fs o) { v with server := { v.server with tree := t } }

theorem Performs.outcome {cfg : CreateConfig} {k : Nat} {v v' : View} {o : ServerOp} {r : ServerRes o}
    (hperforms : Performs cfg k v o r v') : Outcome cfg k v o v' := by
  cases o with
  | lockAdmission =>
    obtain ⟨hfree, rfl⟩ := hperforms
    exact .locked hfree
  | unlockAdmission =>
    obtain rfl := hperforms
    exact .unlocked
  | storeLen =>
    obtain ⟨_, rfl⟩ := hperforms
    exact .asked rfl
  | storeAdd task =>
    obtain rfl := hperforms
    exact .added task
  | storeDelete id =>
    obtain ⟨_, rfl⟩ := hperforms
    exact .deleted id
  | newContext sync timeout =>
    obtain ⟨_, rfl⟩ := hperforms
    exact .opened
  | cancel ctx =>
    obtain rfl := hperforms
    exact .cancelled
  | walkDir visit root =>
    cases visit with
    | sizes =>
      obtain rfl := hperforms
      exact .measured _
    | files =>
      obtain rfl := hperforms
      exact .asked rfl
  | readRandom =>
    cases r with
    | ok data =>
      obtain ⟨hfresh, rfl⟩ := hperforms
      exact .drawn data hfresh
    | error err =>
      obtain rfl := hperforms
      exact .undrawn
  | fs o =>
    obtain ⟨t, hdoes, rfl⟩ := hperforms
    exact .files hdoes
  | finishTask | closeDone | parseMultipartForm | enqueue | runBuildTask | openZip | hashFile =>
    obtain rfl := hperforms
    exact .asked rfl

/-! ### A working server -/

structure Surroundings where
  form : Except GoError Form
  archive : Except GoError (List ZipEntry)
  random : Vector UInt8 16
  enqueued : Except GoError Unit

def walkEntries (t : Tree) (top : Place) : List WalkEntry :=
  ⟨[], none, true, .ok (false, 0)⟩ :: t.entries.filterMap fun e =>
    if top.under e.1 && e.1 != top then
      some ⟨Path.render false (e.1.comps.drop top.comps.length), none, e.2 == .dir, .ok (e.2 != .dir, e.2.size)⟩
    else none

def respond (env : Surroundings) (k : Nat) : (o : ServerOp) → View → ServerRes o × View
  | .lockAdmission, v => ((), { v with server := { v.server with holder := some k } })
  | .unlockAdmission, v => ((), { v with server := { v.server with holder := none } })
  | .storeLen, v => (v.server.tasks.length, v)
  | .storeAdd task, v =>
      ((), { v with server := { v.server with tasks := v.server.tasks.filter (fun old => old.id != task.id) ++ [task] } })
  | .storeDelete id, v =>
      (v.server.tasks.find? fun task => task.id == id,
        { v with server := { v.server with tasks := v.server.tasks.filter fun task => task.id != id } })
  | .newContext _ _, v =>
      (v.server.contexts.length, { v with server := { v.server with contexts := v.server.contexts ++ [false] } })
  | .cancel ctx, v => ((), { v with server := { v.server with contexts := v.server.contexts.set ctx true } })
  | .walkDir .sizes root, v =>
      (walkEntries v.server.tree (place root), { v with measured := (sumSizes (walkEntries v.server.tree (place root)) 0).toOption })
  | .walkDir .files root, v => (walkEntries v.server.tree (place root), v)
  | .readRandom, v =>
      (.ok env.random, { v with
        server := { v.server with drawn := hexEncode env.random.toList :: v.server.drawn }
        id := some (hexEncode env.random.toList) })
  | .parseMultipartForm _, v => (env.form, v)
  | .openZip _, v => (env.archive, v)
  | .enqueue _ _, v => (env.enqueued, v)
  | .hashFile p, v => ((answer (.readFile p) v.server.tree).1.mapError fun err => (.opening, err), v)
  | .fs o, v => ((answer o v.server.tree).1, { v with server := { v.server with tree := (answer o v.server.tree).2 } })
  | .finishTask _ _ _, v | .closeDone _, v | .runBuildTask _, v => ((), v)

def answerable (cfg : CreateConfig) (env : Surroundings) (o : ServerOp) (s : Server) : Bool :=
  match o with
  | .lockAdmission => s.holder.isNone
  | .readRandom =>
      let id := hexEncode env.random.toList
      !s.drawn.contains id && s.tasks.all (fun task => task.id != id) &&
        s.tree.entries.all fun e => !(place (cfg.taskDir id)).under e.1
  | _ => true

theorem respond_performs {cfg : CreateConfig} {env : Surroundings} {k : Nat} (o : ServerOp) (v : View)
    (hanswerable : answerable cfg env o v.server = true) :
    Performs cfg k v o (respond env k o v).1 (respond env k o v).2 := by
  cases o with
  | lockAdmission => exact ⟨Option.isNone_iff_eq_none.1 hanswerable, rfl⟩
  | readRandom =>
    simp only [answerable, Bool.and_eq_true, Bool.not_eq_true', contains_eq_mem, decide_eq_false_iff_not,
      List.all_eq_true, bne_iff_ne] at hanswerable
    exact ⟨⟨hanswerable.1.1, hanswerable.1.2, hanswerable.2⟩, rfl⟩
  | walkDir visit root =>
    cases visit with
    | sizes | files => exact rfl
  | storeLen | storeDelete | newContext => exact ⟨rfl, rfl⟩
  | fs o => exact ⟨_, answer_does o v.server.tree, rfl⟩
  | unlockAdmission | storeAdd | cancel | parseMultipartForm | openZip | enqueue | hashFile | finishTask
  | closeDone | runBuildTask => exact rfl

/-! ### Names of task directories -/

theorem hexDigit_plain {n : UInt8} (hn : n.toNat < 16) :
    hexDigit n ≠ slash ∧ hexDigit n ≠ 0x2E ∧ hexDigit n < 0x80 ∧ asciiSpace (hexDigit n) = false := by
  have hall : ∀ m < 16, hexDigit (UInt8.ofNat m) ≠ slash ∧ hexDigit (UInt8.ofNat m) ≠ 0x2E ∧
      hexDigit (UInt8.ofNat m) < 0x80 ∧ asciiSpace (hexDigit (UInt8.ofNat m)) = false := by decide
  have hdigit := hall n.toNat hn
  rwa [UInt8.ofNat_toNat] at hdigit

theorem hexEncode_plain {bytes : List UInt8} {b : UInt8} (hb : b ∈ hexEncode bytes) :
    b ≠ slash ∧ b ≠ 0x2E ∧ b < 0x80 ∧ asciiSpace b = false := by
  obtain ⟨a, _, hdigit⟩ := mem_flatMap.1 hb
  have hbyte := a.toNat_lt
  rcases mem_pair.1 hdigit with rfl | rfl
  · refine hexDigit_plain ?_
    rw [UInt8.toNat_div]
    exact Nat.div_lt_of_lt_mul hbyte
  · refine hexDigit_plain ?_
    rw [UInt8.toNat_mod]
    exact Nat.mod_lt _ (by decide)

theorem id_named (data : Vector UInt8 16) :
    Path.Part (hexEncode data.toList) ∧ hexEncode data.toList ≠ dotdot ∧
      ∃ b ∈ hexEncode data.toList, b < 0x80 ∧ asciiSpace b = false := by
  have hne : data.toList ≠ [] := by
    intro hnil
    have hlength := congrArg length hnil
    rw [Vector.length_toList] at hlength
    cases hlength
  obtain ⟨a, rest, hdata⟩ := exists_cons_of_ne_nil hne
  have hfirst : hexDigit (a / 16) ∈ hexEncode data.toList := by
    rw [hdata]
    exact mem_cons_self
  have hdot : ∀ text : Bytes, 0x2E ∈ text → hexEncode data.toList ≠ text := by
    rintro text hmem rfl
    exact (hexEncode_plain hmem).2.1 rfl
  refine ⟨⟨ne_nil_of_mem hfirst, hdot _ (by decide), ?_⟩, hdot _ (by decide), ?_⟩
  · intro hslash
    exact (hexEncode_plain hslash).1 rfl
  · exact ⟨_, hfirst, (hexEncode_plain hfirst).2.2⟩

theorem place_join {dst name : Bytes} (hpart : Path.Part name) (hname : name ≠ dotdot) :
    place (join dst name) = ⟨(place dst).root, (place dst).comps ++ [name]⟩ := by
  obtain ⟨hcomps, hroot⟩ := (inside_part hpart hname).components_join dst
  rw [place, hcomps, hroot, components_part hpart hname]
  rfl

theorem taskDir_ne_nil (cfg : CreateConfig) (data : Vector UInt8 16) :
    (trimSpace (cfg.taskDir (hexEncode data.toList))).isEmpty = false := by
  obtain ⟨hpart, hname, b, hb, hlow, hspace⟩ := id_named data
  have hinside := inside_part hpart hname
  have hcomps : hexEncode data.toList ∈
      components cfg.workDir ++ components (hexEncode data.toList) := by
    rw [components_part hpart hname]
    exact mem_append_right _ mem_cons_self
  have hmem : b ∈ cfg.taskDir (hexEncode data.toList) := by
    rw [CreateConfig.taskDir, hinside.join_eq]
    exact mem_render hcomps hb
  rw [isEmpty_eq_false_iff]
  exact ne_nil_of_mem (mem_trimSpace hlow hspace hmem)

end BuildkitService.Daemon
