import BuildkitService.GitCache.Eviction

/-!
# One request at a time asks upstream

`ensure_mirror` looks at the mirror and at its stamp once more when it holds the lock. So of all the
requests for a mirror one at a time clones or refreshes it, and it does so because the mirror is not
there or the stamp is old, whatever other requests, the collector and failures come between.
-/

namespace BuildkitService.GitCache

open Strings Threads List Runs

variable {cfg : Config} {s s' : State} {p : Place}

/-- Under the lock, from the look that did not find the mirror to the rename of the clone. -/
def RequestPc.missing : RequestPc → Bool
  | .lockedStamp there => !there
  | .lookTmp | .removeTmp | .awaitClone | .clone | .cleanup | .replace => true
  | _ => false

theorem RequestPc.locked_of_missing {pc : RequestPc} (hmissing : pc.missing = true) : pc.locked = true := by
  cases pc <;> first | rfl | cases hmissing

/-- What a step of a request does to the mirrors and the stamps. -/
structure Effect (cfg : Config) (s : State) (t : Request) (choice : Choice) (s' : State) (pc : RequestPc) :
    Prop where
  objects : ∀ q ∈ s'.objects, q ∈ s.objects ∨ (t.pc = .replace ∧ pc = .touch ∧ q = t.repo)
  missing : pc.missing = true → t.pc.missing = true ∨ t.repo ∉ s.objects
  fresh : s'.fresh = s.fresh ∧ (t.pc = .touch → choice = .fail) ∨
    t.pc = .touch ∧ s'.fresh = t.repo :: s.fresh.erase t.repo
  refresh : pc = .refresh → s.isFresh cfg t.repo = false ∧ s'.fresh = s.fresh
  touch : t.pc = .refresh → choice = .go → pc = .touch

theorem request_effect {t : Request} {choice : Choice} {pc : RequestPc}
    (h : request cfg s t t.pc choice = some (s', pc)) : Effect cfg s t choice s' pc := by
  obtain ⟨repo, refresh, before⟩ := t
  dsimp only at h
  unfold request at h
  split at h <;> (try split_ifs at h) <;> cases h <;>
    constructor <;> simp_all [RequestPc.missing]
  all_goals exact fun _ => mem_of_mem_erase

/-! ### The invariant -/

structure Flight (cfg : Config) (s : State) : Prop where
  alone : ∀ {i j : Nat} {t u : Request}, s.requests[i]? = some t → s.requests[j]? = some u →
    t.pc.locked = true → u.pc.locked = true → lockKey t.repo = lockKey u.repo → i = j
  mutex : ∀ t ∈ s.requests, t.pc.locked = true → ∀ p, s.gc.locked = some p → lockKey p ≠ lockKey t.repo
  missing : ∀ t ∈ s.requests, t.pc.missing = true → t.repo ∉ s.objects
  stale : ∀ t ∈ s.requests, t.pc = .refresh → cfg.ttl = true → t.repo ∉ s.fresh

theorem Flight.request {i : Nat} {t : Request} {choice : Choice} {s₁ : State} {pc : RequestPc}
    (hflight : Flight cfg s) (ht : s.requests[i]? = some t) (hnext : RequestNext cfg s t t.pc choice s₁ pc)
    (heffect : Effect cfg s t choice s₁ pc) :
    Flight cfg { s₁ with requests := s.requests.set i { t with pc := pc } } := by
  have hmem : t ∈ s.requests := mem_of_getElem? ht
  -- No other request holds the lock that this one holds or takes.
  have hother : pc.locked = true → ∀ {j u}, j ≠ i → s.requests[j]? = some u → u.pc.locked = true →
      lockKey u.repo ≠ lockKey t.repo := by
    intro hpc j u hji hu hlocked hkey
    rcases hnext.locked hpc with hbefore | hfree
    · exact hji (hflight.alone hu ht hlocked hbefore hkey)
    · exact (lockFree_iff.1 hfree).2 u (mem_of_getElem? hu) hlocked hkey
  refine ⟨?_, ?_, ?_, ?_⟩
  · intro j k u v hu hv hlu hlv hkey
    rcases getElem?_set_cases hu with ⟨hji, rfl⟩ | ⟨hji, hold⟩ <;>
      rcases getElem?_set_cases hv with ⟨hki, rfl⟩ | ⟨hki, hold'⟩
    · exact hji.trans hki.symm
    · exact absurd hkey.symm (hother hlu hki hold' hlv)
    · exact absurd hkey (hother hlv hji hold hlu)
    · exact hflight.alone hold hold' hlu hlv hkey
  · intro u hu hlocked q hq
    rw [hnext.gc_eq] at hq
    rcases mem_or_eq_of_mem_set hu with hold | rfl
    · exact hflight.mutex u hold hlocked q hq
    · rcases hnext.locked hlocked with hbefore | hfree
      · exact hflight.mutex t hmem hbefore q hq
      · exact (lockFree_iff.1 hfree).1 q hq
  · intro u hu hmissing hthere
    obtain ⟨j, hj⟩ := getElem?_of_mem hu
    rcases getElem?_set_cases hj with ⟨_, rfl⟩ | ⟨hji, hj⟩
    · rcases heffect.objects _ hthere with hold | ⟨_, rfl, _⟩
      · rcases heffect.missing hmissing with hbefore | hnot
        · exact hflight.missing t hmem hbefore hold
        · exact hnot hold
      · cases hmissing
    · rcases heffect.objects _ hthere with hold | ⟨hpc, _, hrepo⟩
      · exact hflight.missing u (mem_of_getElem? hj) hmissing hold
      · refine hji (hflight.alone hj ht (RequestPc.locked_of_missing hmissing) ?_ (by rw [hrepo]))
        rw [hpc]
        rfl
  · intro u hu hrefresh httl
    obtain ⟨j, hj⟩ := getElem?_of_mem hu
    rcases getElem?_set_cases hj with ⟨_, rfl⟩ | ⟨hji, hj⟩
    · obtain ⟨hstale, hfresh⟩ := heffect.refresh hrefresh
      rw [hfresh]
      exact fun hthere => by simp [State.isFresh, httl, hthere] at hstale
    · have hstale := hflight.stale u (mem_of_getElem? hj) hrefresh httl
      rcases heffect.fresh with ⟨hfresh, _⟩ | ⟨hpc, hfresh⟩
      · rw [hfresh]
        exact hstale
      · have hne : u.repo ≠ t.repo := by
          intro hrepo
          refine hji (hflight.alone hj ht ?_ ?_ (by rw [hrepo]))
          · rw [hrefresh]
            rfl
          · rw [hpc]
            rfl
        rw [hfresh, mem_cons, mem_erase_of_ne hne]
        exact not_or.2 ⟨hne, hstale⟩

/-- What takes the stamp of `p` away or leaves it old: its age, its eviction, a failed `touch`. -/
def losses (p : Place) (s : State) : Action → Nat
  | .expire q => if q = p then 1 else 0
  | .gc .go =>
      match s.gc with
      | .unlink _ _ _ q _ => if q = p then 1 else 0
      | _ => 0
  | .request i .fail => if (s.requests[i]?).any fun t => t.repo = p ∧ t.pc = .touch then 1 else 0
  | _ => 0

theorem gc_keeps {choice : Choice} (h : gcStep cfg s s.gc choice = some s') :
    s'.requests = s.requests ∧ (∀ q ∈ s'.objects, q ∈ s.objects) ∧ (∀ q ∈ s'.fresh, q ∈ s.fresh) ∧
      ∀ q ∈ s.fresh, losses q s (.gc choice) = 0 → q ∈ s'.fresh := by
  unfold losses
  generalize s.gc = g at h
  unfold gcStep at h
  split at h <;> (try split_ifs at h) <;> cases h <;> simp
  case h_12.refl => exact ⟨fun _ => mem_of_mem_erase, fun q hq hne => (mem_erase_of_ne (Ne.symm hne)).2 hq⟩
  all_goals exact fun _ => mem_of_mem_erase

theorem Flight.gc {choice : Choice} (hflight : Flight cfg s) (h : gcStep cfg s s.gc choice = some s') :
    Flight cfg s' := by
  obtain ⟨hrequests, hobjects, hfresh, _⟩ := gc_keeps h
  have hnext := gc_next h
  refine ⟨?_, ?_, ?_, ?_⟩
  · rw [hrequests]
    exact hflight.alone
  · rw [hrequests]
    intro t ht hlocked p hp
    generalize hg : s.gc = g at hnext
    have hbefore : ∀ q, g.locked = some q → lockKey q ≠ lockKey t.repo :=
      hg ▸ hflight.mutex t ht hlocked
    cases hnext with
    | quiet _ _ hold => exact hbefore p (hold p hp)
    | findsStale => cases hp
    | locks hfree =>
      cases hp
      exact fun hkey => (lockFree_iff.1 hfree).2 t ht hlocked hkey.symm
    | evicts => exact hbefore p hp
    | removes _ _ hs =>
      rw [hs] at hp
      exact hbefore p hp
  · rw [hrequests]
    exact fun t ht hmissing hthere => hflight.missing t ht hmissing (hobjects _ hthere)
  · rw [hrequests]
    exact fun t ht hrefresh httl hthere => hflight.stale t ht hrefresh httl (hfresh _ hthere)

theorem Flight.step {a : Action} (hflight : Flight cfg s) (hstep : step cfg s a = some s') : Flight cfg s' := by
  cases a with
  | arrive repo refresh =>
    cases hstep
    refine ⟨?_, forall_mem_append.2 ⟨hflight.mutex, ?_⟩, forall_mem_append.2 ⟨hflight.missing, ?_⟩,
      forall_mem_append.2 ⟨hflight.stale, ?_⟩⟩
    · intro i j t u ht hu hlt hlu hkey
      rcases getElem?_snoc ht with ht | ⟨_, rfl⟩
      · rcases getElem?_snoc hu with hu | ⟨_, rfl⟩
        · exact hflight.alone ht hu hlt hlu hkey
        · cases hlu
      · cases hlt
    all_goals
      intro t ht hnew
      rw [mem_singleton.1 ht] at hnew
      cases hnew
  | expire p =>
    cases hstep
    refine ⟨hflight.alone, hflight.mutex, hflight.missing, ?_⟩
    exact fun t ht hrefresh httl hthere => hflight.stale t ht hrefresh httl (mem_of_mem_erase hthere)
  | request i choice =>
    simp only [GitCache.step] at hstep
    split at hstep
    · rename_i t ht
      obtain ⟨⟨s₁, pc⟩, hrequest, rfl⟩ := Option.map_eq_some_iff.1 hstep
      exact hflight.request ht (request_next hrequest) (request_effect hrequest)
    · cases hstep
  | gc choice => exact hflight.gc hstep

theorem flight_run {objects fresh : List Place} {as : List Action}
    (hrun : exec (step cfg) (start objects fresh) as = some s) : Flight cfg s := by
  refine exec_invariant _ (fun s a s' hflight hstep => hflight.step hstep) ⟨?_, ?_, ?_, ?_⟩ hrun
  · intro i j t u ht
    cases ht
  all_goals
    intro t ht
    cases ht

/-- Two requests find an old stamp, and the first is about to refresh. -/
def sampleRefresh : List Action :=
  .arrive sampleRepo true :: .arrive sampleRepo true :: replicate 3 (.request 1 .go) ++ replicate 6 (.request 0 .go)

/-! ### How often a mirror is refreshed -/

def refreshes (p : Place) (s : State) : Action → Nat
  | .request i .go => if (s.requests[i]?).any fun t => t.repo = p ∧ t.pc = .refresh then 1 else 0
  | _ => 0

/-- The stamp of `p` is new, or a request is about to touch it. -/
def Settled (p : Place) (s : State) : Prop := p ∈ s.fresh ∨ ∃ t ∈ s.requests, t.repo = p ∧ t.pc = .touch

instance : Decidable (Settled p s) := by
  unfold Settled
  infer_instance

theorem Settled.step {a : Action} (hsettled : Settled p s) (hloss : losses p s a = 0)
    (hstep : step cfg s a = some s') : Settled p s' := by
  cases a with
  | arrive repo refresh =>
    cases hstep
    refine hsettled.imp_right ?_
    rintro ⟨t, ht, htouch⟩
    exact ⟨t, mem_append_left _ ht, htouch⟩
  | expire q =>
    cases hstep
    have hne : p ≠ q := by
      rintro rfl
      simp [losses] at hloss
    exact hsettled.imp_left (mem_erase_of_ne hne).2
  | request i choice =>
    simp only [GitCache.step] at hstep
    split at hstep
    · rename_i t ht
      obtain ⟨⟨s₁, pc⟩, hrequest, rfl⟩ := Option.map_eq_some_iff.1 hstep
      rcases (request_effect hrequest).fresh with ⟨hfresh, hfail⟩ | ⟨hpc, hfresh⟩
      · refine hsettled.imp (fun hp => hfresh ▸ hp) ?_
        rintro ⟨u, hu, hrepo, htouch⟩
        rcases eq_or_mem_set ht hu with rfl | hkept
        · -- The stamp could not be written: that is a loss.
          obtain rfl := hfail htouch
          simp [losses, ht, hrepo, htouch] at hloss
        · exact ⟨u, hkept, hrepo, htouch⟩
      · by_cases hrepo : p = t.repo
        · refine .inl ?_
          rw [hfresh, hrepo]
          exact mem_cons_self
        · rcases hsettled with hp | ⟨u, hu, hurepo, htouch⟩
          · refine .inl ?_
            rw [hfresh]
            exact mem_cons_of_mem _ ((mem_erase_of_ne hrepo).2 hp)
          · rcases eq_or_mem_set ht hu with rfl | hkept
            · exact absurd hurepo.symm hrepo
            · exact .inr ⟨u, hkept, hurepo, htouch⟩
    · cases hstep
  | gc choice =>
    obtain ⟨hrequests, _, _, hfresh⟩ := gc_keeps hstep
    rw [Settled, hrequests]
    exact hsettled.imp_left fun hp => hfresh p hp hloss

theorem settled_of_refreshes {a : Action} (hflight : Flight cfg s) (httl : cfg.ttl = true)
    (hrefreshes : refreshes p s a ≠ 0) (hstep : step cfg s a = some s') : ¬ Settled p s ∧ Settled p s' := by
  unfold refreshes at hrefreshes
  split at hrefreshes
  · rename_i i
    cases ht : s.requests[i]? with
    | none => simp [ht] at hrefreshes
    | some t =>
      obtain ⟨rfl, hpc⟩ : t.repo = p ∧ t.pc = .refresh := by simpa [ht] using hrefreshes
      simp only [GitCache.step, ht] at hstep
      obtain ⟨⟨s₁, pc⟩, hrequest, rfl⟩ := Option.map_eq_some_iff.1 hstep
      obtain rfl := (request_effect hrequest).touch hpc rfl
      refine ⟨?_, .inr ⟨_, mem_set_self ht, rfl, rfl⟩⟩
      rintro (hfresh | ⟨u, hu, hrepo, htouch⟩)
      · exact hflight.stale t (mem_of_getElem? ht) hpc httl hfresh
      · obtain ⟨j, hj⟩ := getElem?_of_mem hu
        have hij := hflight.alone ht hj (by rw [hpc]; rfl) (by rw [htouch]; rfl) (by rw [hrepo])
        rw [← hij, ht, Option.some.injEq] at hj
        rw [← hj, hpc] at htouch
        cases htouch
  · exact absurd rfl hrefreshes

end BuildkitService.GitCache
