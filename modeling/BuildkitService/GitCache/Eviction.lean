import BuildkitService.GitCache.Machine
import BuildkitService.Lib.Threads

/-!
# Removing mirrors that are served

`evict_mirror` removes a mirror under its lock, and `ensure_mirror` clones and refreshes under it.
-/

namespace BuildkitService.GitCache

open Strings Threads List

variable {cfg : Config} {s s' : State} {i : Nat}

/-! ### Looking and removing -/

def RequestPc.looks : RequestPc → Bool
  | .validate | .check | .lock | .lockedCheck | .failed | .ended => false
  | _ => true

def RequestPc.serves : RequestPc → Bool
  | .returned | .serving => true
  | _ => false

def RequestPc.removes : RequestPc → Bool
  | .removeTmp | .cleanup => true
  | _ => false

structure Removal where
  path : Place
  evicts : Bool
  deriving DecidableEq, Repr

def Request.removal (cfg : Config) (t : Request) : Option Removal :=
  if t.pc.removes then some ⟨tmpPath cfg.pid t.repo, false⟩ else none

def GcPc.removal : GcPc → Option Removal
  | .removeStale p => some ⟨p, false⟩
  | .remove _ _ _ p _ => some ⟨p, true⟩
  | _ => none

def State.removals (cfg : Config) (s : State) : List Removal :=
  s.gc.removal.toList ++ s.requests.filterMap (Request.removal cfg)

def Touches (p r : Place) : Prop := p <+: r ∨ r <+: p

instance (p r : Place) : Decidable (Touches p r) := by
  unfold Touches
  infer_instance

theorem mem_removals {d : Removal} : d ∈ s.removals cfg ↔
    s.gc.removal = some d ∨ ∃ t ∈ s.requests, t.removal cfg = some d := by
  rw [State.removals, mem_append, mem_filterMap, Option.mem_toList]

inductive RequestNext (cfg : Config) (s : State) (t : Request) :
    RequestPc → Choice → State → RequestPc → Prop
  | quiet {pc pc' : RequestPc} {choice : Choice} {s' : State} (hobjects : s'.objects = s.objects)
      (hgc : s'.gc = s.gc) (hlooks : pc'.looks = true → pc.looks = true)
      (hlocked : pc'.locked = true → pc.locked = true) (hremoves : pc'.removes = false) :
      RequestNext cfg s t pc choice s' pc'
  | checks {pc : RequestPc} (hlocked : pc.locked = false) (hremoves : pc.removes = false) :
      RequestNext cfg s t .check .go s pc
  | locks (hfree : s.lockFree (lockKey t.repo) = true) : RequestNext cfg s t .lock .go s .lockedCheck
  | checksLocked (there : Bool) : RequestNext cfg s t .lockedCheck .go s (.lockedStamp there)
  | findsTmp : RequestNext cfg s t .lookTmp (.found true) s .removeTmp
  | cloneFails : RequestNext cfg s t .clone .fail { s with clones := s.clones - 1 } .cleanup
  | removes {pc : RequestPc} {p : Place} (hremoves : pc.removes = true) (hp : tmpPath cfg.pid t.repo <+: p) :
      RequestNext cfg s t pc (.removed p) { s with objects := s.objects.erase p } pc
  | replaces : RequestNext cfg s t .replace .go { s with objects := t.repo :: s.objects } .touch

theorem request_next {t : Request} {pc pc' : RequestPc} {choice : Choice}
    (h : request cfg s t pc choice = some (s', pc')) : RequestNext cfg s t pc choice s' pc' := by
  unfold request at h
  split at h
  case h_3 =>
    cases h
    refine .checks ?_ ?_ <;> split_ifs <;> rfl
  case h_4 =>
    cases h
    split_ifs <;> exact .quiet rfl rfl (fun _ => rfl) nofun rfl
  case h_6 =>
    split_ifs at h with hfree
    cases h
    exact .locks hfree
  case h_8 =>
    cases h
    exact .checksLocked _
  case h_9 =>
    cases h
    split_ifs <;> exact .quiet rfl rfl (fun _ => rfl) (fun _ => rfl) rfl
  case h_11 there =>
    cases h
    cases there with
    | true => exact .findsTmp
    | false => exact .quiet rfl rfl (fun _ => rfl) (fun _ => rfl) rfl
  case h_12 =>
    split_ifs at h with hp
    cases h
    exact .removes rfl hp
  case h_17 =>
    cases h
    exact .cloneFails
  case h_18 =>
    split_ifs at h with hp
    cases h
    exact .removes rfl hp
  case h_20 =>
    split_ifs at h
    cases h
    exact .replaces
  case h_15 | h_28 =>
    split_ifs at h
    cases h
    exact .quiet rfl rfl (fun _ => rfl) (by simp [RequestPc.locked]) rfl
  case h_31 => cases h
  all_goals
    cases h
    exact .quiet rfl rfl (by simp [RequestPc.looks]) (by simp [RequestPc.locked]) rfl

inductive GcNext (s : State) : GcPc → Choice → State → Prop
  | quiet {g : GcPc} {choice : Choice} {s' : State} (hobjects : s'.objects = s.objects)
      (hrequests : s'.requests = s.requests) (hlocked : ∀ p, s'.gc.locked = some p → g.locked = some p)
      (hremoval : s'.gc.removal = none) : GcNext s g choice s'
  | findsStale (p : Place) : GcNext s .sweep (.stale p) { s with gc := .removeStale p }
  | locks {total freed : Nat} {p : Place} {rest : List Place} (hfree : s.lockFree (lockKey p) = true) :
      GcNext s (.evicting total freed (p :: rest)) .go { s with gc := .lockedCheck total freed p rest }
  | evicts {total freed size : Nat} {p : Place} {rest : List Place} (hthere : s.objects.contains p = true) :
      GcNext s (.lockedCheck total freed p rest) (.measured size)
        { s with gc := .remove total freed size p rest }
  | removes {g : GcPc} {d : Removal} {q : Place} {s' : State} (hremoval : g.removal = some d)
      (hq : d.path <+: q) (hs : s' = { s with objects := s.objects.erase q, gc := g }) :
      GcNext s g (.removed q) s'

theorem gc_next {choice : Choice} (h : gcStep cfg s s.gc choice = some s') : GcNext s s.gc choice s' := by
  generalize hg : s.gc = g at h
  unfold gcStep at h
  split at h
  case h_2 =>
    split_ifs at h
    cases h
    exact .findsStale _
  case h_3 =>
    split_ifs at h with hq
    cases h
    exact .removes rfl hq (by rw [← hg])
  case h_7 =>
    split_ifs at h with htarget hfree
    · cases h
      exact .quiet rfl rfl nofun rfl
    · cases h
      exact .locks hfree
    · cases h
      exact .quiet rfl rfl nofun rfl
  case h_9 =>
    split_ifs at h with hthere
    · cases h
      exact .evicts hthere
    · cases h
      exact .quiet rfl rfl nofun rfl
  case h_10 =>
    split_ifs at h with hq
    cases h
    exact .removes rfl hq rfl
  case h_1 =>
    split_ifs at h
    cases h
    exact .quiet rfl rfl nofun rfl
  case h_5 =>
    split_ifs at h
    · cases h
      exact .quiet rfl rfl nofun rfl
    · cases h
      exact .quiet rfl rfl nofun rfl
  case h_13 => cases h
  case h_11 =>
    cases h
    exact .quiet rfl rfl (fun _ hp => hp) rfl
  all_goals
    cases h
    exact .quiet rfl rfl nofun rfl

section Next

variable {t : Request} {pc pc' : RequestPc} {choice : Choice}

section

variable (hnext : RequestNext cfg s t pc choice s' pc')

include hnext

theorem RequestNext.gc_eq : s'.gc = s.gc := by
  cases hnext with
  | quiet hobjects hgc => exact hgc
  | _ => rfl

theorem RequestNext.looks (hlooks : pc'.looks = true) :
    pc.looks = true ∨ (choice = .go ∧ (pc = .check ∨ pc = .lockedCheck)) := by
  cases hnext with
  | quiet _ _ hbefore => exact .inl (hbefore hlooks)
  | checks => exact .inr ⟨rfl, .inl rfl⟩
  | checksLocked => exact .inr ⟨rfl, .inr rfl⟩
  | locks => cases hlooks
  | findsTmp | cloneFails | replaces => exact .inl rfl
  | removes => exact .inl hlooks

theorem RequestNext.locked (hlocked : pc'.locked = true) :
    pc.locked = true ∨ s.lockFree (lockKey t.repo) = true := by
  cases hnext with
  | quiet _ _ _ hbefore => exact .inl (hbefore hlocked)
  | checks hfree =>
    rw [hfree] at hlocked
    cases hlocked
  | locks hfree => exact .inr hfree
  | checksLocked | findsTmp | cloneFails | replaces => exact .inl rfl
  | removes => exact .inl hlocked

theorem RequestNext.begins_removal (hremoves : pc'.removes = true) :
    pc.removes = true ∨ (pc.looks = true ∧ (choice = .found true ∨ (choice = .fail ∧ pc = .clone))) := by
  cases hnext with
  | quiet _ _ _ _ hnot | checks _ hnot =>
    rw [hnot] at hremoves
    cases hremoves
  | locks | checksLocked | replaces => cases hremoves
  | findsTmp => exact .inr ⟨rfl, .inl rfl⟩
  | cloneFails => exact .inr ⟨rfl, .inr ⟨rfl, rfl⟩⟩
  | removes hbefore => exact .inl hbefore

end

end Next

/-! ### Runs without disturbance -/

def begins (cfg : Config) (s : State) : Action → Option Place
  | .gc (.stale p) => some p
  | .gc (.measured _) =>
      match s.gc with
      | .lockedCheck _ _ p _ => if s.objects.contains p then some p else none
      | _ => none
  | .request i (.found true) => (s.requests[i]?).map fun t => tmpPath cfg.pid t.repo
  | .request i .fail =>
      ((s.requests[i]?).filter fun t => t.pc = .clone).map fun t => tmpPath cfg.pid t.repo
  | _ => none

def looker (s : State) : Action → Option Request
  | .request i .go => (s.requests[i]?).filter fun t => t.pc = .check ∨ t.pc = .lockedCheck
  | _ => none

def Undisturbed (cfg : Config) (s : State) (a : Action) : Prop :=
  (∀ p ∈ begins cfg s a, ∀ t ∈ s.requests, t.pc.looks = true → ¬Touches p t.repo) ∧
  ∀ t ∈ looker s a, ∀ d ∈ s.removals cfg, (t.pc = .check ∨ d ≠ ⟨t.repo, true⟩) → ¬Touches d.path t.repo

instance (a : Action) : Decidable (Undisturbed cfg s a) := by
  unfold Undisturbed
  infer_instance

structure Apart (cfg : Config) (s : State) : Prop where
  mutex : ∀ t ∈ s.requests, t.pc.locked = true → ∀ p, s.gc.locked = some p → lockKey p ≠ lockKey t.repo
  apart : ∀ d ∈ s.removals cfg, ∀ t ∈ s.requests, t.pc.looks = true → ¬Touches d.path t.repo

theorem lockFree_iff {key : Bytes} : s.lockFree key = true ↔ (∀ p, s.gc.locked = some p → lockKey p ≠ key) ∧
    ∀ t ∈ s.requests, t.pc.locked = true → lockKey t.repo ≠ key := by
  simp only [State.lockFree, GcPc.holds, Request.holds, Bool.and_eq_true, Bool.not_eq_true',
    List.all_eq_true, Bool.and_eq_false_imp, beq_eq_false_iff_ne, Option.any_eq_false]

theorem locked_of_evicts {p : Place} (hmem : (⟨p, true⟩ : Removal) ∈ s.removals cfg) :
    s.gc.locked = some p := by
  rcases mem_removals.1 hmem with hgc | ⟨t, _, ht⟩
  · cases hpc : s.gc with
    | remove total freed size q rest =>
      rw [hpc] at hgc
      cases hgc
      rfl
    | _ =>
      rw [hpc] at hgc
      cases hgc
  · rw [Request.removal] at ht
    split_ifs at ht
    cases ht

theorem apart_of_moved {t : Request} {choice : Choice} {s₁ : State} {pc' : RequestPc} (hapart : Apart cfg s)
    (hquiet : Undisturbed cfg s (.request i choice)) (ht : s.requests[i]? = some t)
    (hnext : RequestNext cfg s t t.pc choice s₁ pc') (hlooks : pc'.looks = true) {d : Removal}
    (hd : d ∈ s.removals cfg) : ¬Touches d.path t.repo := by
  have hmem : t ∈ s.requests := mem_of_getElem? ht
  rcases hnext.looks hlooks with hbefore | ⟨rfl, hpc⟩
  · exact hapart.apart d hd t hmem hbefore
  · have hlooker : t ∈ looker s (.request i .go) := by
      simp [looker, ht, hpc]
    by_cases hevicts : d = ⟨t.repo, true⟩
    · rcases hpc with hcheck | hlocked
      · exact hquiet.2 t hlooker d hd (.inl hcheck)
      · -- The eviction holds the lock that the request holds.
        rw [hevicts] at hd
        exact absurd rfl (hapart.mutex t hmem (by rw [hlocked]; rfl) t.repo (locked_of_evicts hd))
    · exact hquiet.2 t hlooker d hd (.inr hevicts)

theorem apart_of_begun {t u : Request} {choice : Choice} (ht : s.requests[i]? = some t)
    (hquiet : Undisturbed cfg s (.request i choice))
    (hbegins : choice = .found true ∨ (choice = .fail ∧ t.pc = .clone)) (hu : u ∈ s.requests)
    (hlooks : u.pc.looks = true) : ¬Touches (tmpPath cfg.pid t.repo) u.repo := by
  refine hquiet.1 _ ?_ u hu hlooks
  rcases hbegins with rfl | ⟨rfl, hpc⟩
  · simp [begins, ht]
  · simp [begins, ht, hpc]

theorem apart_request {t : Request} {choice : Choice} {s₁ : State} {pc' : RequestPc} (hapart : Apart cfg s)
    (hquiet : Undisturbed cfg s (.request i choice)) (ht : s.requests[i]? = some t)
    (hnext : RequestNext cfg s t t.pc choice s₁ pc') :
    Apart cfg { s₁ with requests := s.requests.set i { t with pc := pc' } } := by
  have hmem : t ∈ s.requests := mem_of_getElem? ht
  constructor
  · intro u hu hlocked p hp
    rw [hnext.gc_eq] at hp
    rcases mem_or_eq_of_mem_set hu with hold | rfl
    · exact hapart.mutex u hold hlocked p hp
    · rcases hnext.locked hlocked with hbefore | hfree
      · exact hapart.mutex t hmem hbefore p hp
      · exact (lockFree_iff.1 hfree).1 p hp
  · intro d hd u hu hlooks
    -- A removal that was under way, or the one of the temporary clone that begins.
    have hremoval : d ∈ s.removals cfg ∨ (d.path = tmpPath cfg.pid t.repo ∧ t.pc.looks = true ∧
        (choice = .found true ∨ (choice = .fail ∧ t.pc = .clone))) := by
      rcases mem_removals.1 hd with hgc | ⟨v, hv, hvd⟩
      · dsimp only at hgc
        rw [hnext.gc_eq] at hgc
        exact .inl (mem_removals.2 (.inl hgc))
      · rcases mem_or_eq_of_mem_set hv with hold | rfl
        · exact .inl (mem_removals.2 (.inr ⟨v, hold, hvd⟩))
        · rw [Request.removal] at hvd
          split_ifs at hvd with hremoves
          cases hvd
          rcases hnext.begins_removal hremoves with hbefore | hbegins
          · refine .inl (mem_removals.2 (.inr ⟨t, hmem, ?_⟩))
            rw [Request.removal, if_pos hbefore]
          · exact .inr ⟨rfl, hbegins⟩
    rcases mem_or_eq_of_mem_set hu with hold | rfl
    · rcases hremoval with hd | ⟨hpath, _, hbegins⟩
      · exact hapart.apart d hd u hold hlooks
      · rw [hpath]
        exact apart_of_begun ht hquiet hbegins hold hlooks
    · rcases hremoval with hd | ⟨hpath, hbefore, hbegins⟩
      · exact apart_of_moved hapart hquiet ht hnext hlooks hd
      · rw [hpath]
        have hself : ¬Touches (tmpPath cfg.pid t.repo) t.repo := apart_of_begun ht hquiet hbegins hmem hbefore
        exact hself

theorem apart_gc {choice : Choice} (hapart : Apart cfg s) (hquiet : Undisturbed cfg s (.gc choice))
    (hnext : GcNext s s.gc choice s') : Apart cfg s' := by
  -- The removals of requests are the old ones.
  have hold : ∀ {d : Removal} {t : Request}, s'.requests = s.requests → d ∈ s'.removals cfg →
      s'.gc.removal ≠ some d → t ∈ s'.requests → t.pc.looks = true → ¬Touches d.path t.repo := by
    intro d t hrequests hd hgc ht hlooks
    rcases mem_removals.1 hd with hnew | hrequest
    · exact absurd hnew hgc
    · rw [hrequests] at hrequest ht
      exact hapart.apart d (mem_removals.2 (.inr hrequest)) t ht hlooks
  generalize hg : s.gc = g at hnext
  cases hnext with
  | quiet hobjects hrequests hlocked hremoval =>
    refine ⟨?_, fun d hd t ht hlooks => hold hrequests hd (by simp [hremoval]) ht hlooks⟩
    intro t ht hl p hp
    rw [hrequests] at ht
    exact hapart.mutex t ht hl p (by rw [hg]; exact hlocked p hp)
  | findsStale p =>
    refine ⟨nofun, fun d hd t ht hlooks => ?_⟩
    by_cases hgc : (⟨p, false⟩ : Removal) = d
    · rw [← hgc]
      exact hquiet.1 p rfl t ht hlooks
    · exact hold rfl hd (by simpa [GcPc.removal] using hgc) ht hlooks
  | @locks total freed p rest hfree =>
    refine ⟨?_, fun d hd t ht hlooks => hold rfl hd (by simp [GcPc.removal]) ht hlooks⟩
    intro t ht hl q hq
    cases hq
    exact fun heq => (lockFree_iff.1 hfree).2 t ht hl heq.symm
  | @evicts total freed size p rest hthere =>
    refine ⟨?_, fun d hd t ht hlooks => ?_⟩
    · intro t ht hl q hq
      exact hapart.mutex t ht hl q (by rw [hg]; exact hq)
    · by_cases hgc : (⟨p, true⟩ : Removal) = d
      · rw [← hgc]
        refine hquiet.1 p ?_ t ht hlooks
        simp [begins, hg, contains_iff_mem.1 hthere]
      · exact hold rfl hd (by simpa [GcPc.removal] using hgc) ht hlooks
  | @removes g d q s' hremoval hq hs =>
    subst hs
    refine ⟨?_, fun e he t ht hlooks => ?_⟩
    · intro t ht hl p hp
      exact hapart.mutex t ht hl p (by rw [hg]; exact hp)
    · have hremovals : e ∈ s.removals cfg := by
        rw [mem_removals, hg]
        exact mem_removals.1 he
      exact hapart.apart e hremovals t ht hlooks

theorem apart_step {a : Action} (hapart : Apart cfg s) (hquiet : Undisturbed cfg s a)
    (hstep : step cfg s a = some s') : Apart cfg s' := by
  cases a with
  | arrive repo refresh =>
    cases hstep
    constructor
    · intro t ht hlocked p hp
      rcases mem_append.1 ht with hold | hnew
      · exact hapart.mutex t hold hlocked p hp
      · rw [mem_singleton.1 hnew] at hlocked
        cases hlocked
    · intro d hd t ht hlooks
      have hremovals : d ∈ s.removals cfg := by
        rcases mem_removals.1 hd with hgc | ⟨u, hu, hud⟩
        · exact mem_removals.2 (.inl hgc)
        · rcases mem_append.1 hu with hold | hnew
          · exact mem_removals.2 (.inr ⟨u, hold, hud⟩)
          · rw [mem_singleton.1 hnew] at hud
            cases hud
      rcases mem_append.1 ht with hold | hnew
      · exact hapart.apart d hremovals t hold hlooks
      · rw [mem_singleton.1 hnew] at hlooks
        cases hlooks
  | expire p =>
    cases hstep
    exact ⟨hapart.mutex, hapart.apart⟩
  | request i choice =>
    simp only [step] at hstep
    split at hstep
    · rename_i t ht
      obtain ⟨⟨s₁, pc'⟩, hrequest, rfl⟩ := Option.map_eq_some_iff.1 hstep
      exact apart_request hapart hquiet ht (request_next hrequest)
    · cases hstep
  | gc choice => exact apart_gc hapart hquiet (gc_next hstep)

theorem removal_of_gone {a : Action} {r : Place} (hstep : step cfg s a = some s') (hthere : r ∈ s.objects)
    (hgone : r ∉ s'.objects) : ∃ d ∈ s.removals cfg, Touches d.path r := by
  have herase : ∀ {q : Place}, r ∉ s.objects.erase q → q = r := by
    intro q hq
    by_contra hne
    exact hq ((mem_erase_of_ne (Ne.symm hne)).2 hthere)
  cases a with
  | arrive | expire =>
    cases hstep
    exact absurd hthere hgone
  | request i choice =>
    simp only [step] at hstep
    split at hstep
    · rename_i t ht
      obtain ⟨⟨s₁, pc'⟩, hrequest, rfl⟩ := Option.map_eq_some_iff.1 hstep
      have hnext := request_next hrequest
      dsimp only at hgone
      generalize hpc : t.pc = pc at hnext
      cases hnext with
      | quiet hobjects =>
        rw [hobjects] at hgone
        exact absurd hthere hgone
      | removes hremoves hp =>
        have hq := herase hgone
        subst hq
        refine ⟨⟨tmpPath cfg.pid t.repo, false⟩, mem_removals.2 (.inr ⟨t, mem_of_getElem? ht, ?_⟩),
          .inl hp⟩
        rw [Request.removal, hpc, if_pos hremoves]
      | replaces => exact absurd (mem_cons_of_mem _ hthere) hgone
      | checks | locks | checksLocked | findsTmp | cloneFails => exact absurd hthere hgone
    · cases hstep
  | gc choice =>
    have hnext := gc_next hstep
    generalize hg : s.gc = g at hnext
    cases hnext with
    | quiet hobjects =>
      rw [hobjects] at hgone
      exact absurd hthere hgone
    | @removes _ d q _ hremoval hq hs =>
      subst hs
      have heq := herase hgone
      subst heq
      exact ⟨d, mem_removals.2 (.inl (by rw [hg]; exact hremoval)), .inl hq⟩
    | findsStale | locks | evicts => exact absurd hthere hgone

theorem apart_run {objects fresh : List Place} {as : List Action}
    (hquiet : Runs.Along (step cfg) (Undisturbed cfg) (start objects fresh) as)
    (hrun : Runs.exec (step cfg) (start objects fresh) as = some s) : Apart cfg s := by
  refine Runs.exec_invariant_along (step cfg) (fun s a s' => apart_step) ⟨?_, ?_⟩ hquiet hrun
  · intro t ht
    cases ht
  · intro d hd t ht
    cases ht

/-! ### A cache with one mirror -/

def sampleConfig : Config := ⟨7, true, 2, 64, 1000, 800⟩

def sampleRepo : Place := [ascii "github.com", ascii "owner", ascii "repo.git"]

def sampleRead : List Action :=
  .arrive sampleRepo false :: List.replicate 3 (.request 0 .go)

def sampleEviction : List Action :=
  [.gc .go, .gc (.scanned 2000 [(0, sampleRepo)]), .gc .go, .gc (.measured 1500)]

end BuildkitService.GitCache
