import BuildkitService.Lib.Runs
import BuildkitService.Lib.Ledger
import BuildkitService.Pool.AddrPool

/-!
# Who holds the slots

The pool with everyone who uses it.
-/

namespace BuildkitService.Pool

open List Ledger

inductive Client where
  | idle
  | acquiring (slots : List Nat)
  | holding (slot : Nat)
  deriving DecidableEq, Repr

structure System where
  pool : AddrPool
  clients : List Client
  deriving DecidableEq, Repr

inductive Action where
  | join
  | replace (addrs : List BuildkitAddr)
  | snapshot (client : Nat) (key : Bytes) (excluded : List Bytes)
  | acquire (client slot : Nat)
  | abandon (client : Nat)
  | release (client : Nat)
  deriving DecidableEq, Repr

def System.setClient (s : System) (i : Nat) (c : Client) : System :=
  { s with clients := s.clients.set i c }

def step (s : System) : Action → Option System
  | .join => some { s with clients := s.clients ++ [.idle] }
  | .replace addrs => some { s with pool := s.pool.replace addrs }
  | .snapshot i key excluded =>
      match s.clients[i]?, orderedAddrSlots s.pool.slots key with
      | some .idle, some order =>
          some (s.setClient i (.acquiring (s.pool.filterExcludedAddrSlots order excluded)))
      | _, _ => none
  | .acquire i slot =>
      match s.clients[i]?, s.pool.tryAcquireAddrSlot slot with
      | some (.acquiring slots), some pool =>
          if slot ∈ slots then some ({ s with pool := pool }.setClient i (.holding slot)) else none
      | _, _ => none
  | .abandon i =>
      match s.clients[i]? with
      | some (.acquiring _) => some (s.setClient i .idle)
      | _ => none
  | .release i =>
      match s.clients[i]? with
      | some (.holding slot) =>
          (s.pool.releaseAddrSlot slot).map fun pool => { s with pool := pool }.setClient i .idle
      | _ => none

def Client.refs : Client → List Nat
  | .idle => []
  | .acquiring slots => slots
  | .holding slot => [slot]

def Client.holds (slot : Nat) : Client → Nat
  | .holding held => if held = slot then 1 else 0
  | _ => 0

def Client.holdsAddr (p : AddrPool) (addr : Bytes) : Client → Nat
  | .holding slot => if p.address slot = some addr then 1 else 0
  | _ => 0

def System.holders (s : System) (addr : Bytes) : Nat := Ledger.total (Client.holdsAddr s.pool addr) s.clients

/-! ### What a step does -/

theorem mem_orderedAddrSlots {snapshot order : List Nat} {key : Bytes}
    (horder : orderedAddrSlots snapshot key = some order) : ∀ slot ∈ order, slot ∈ snapshot := by
  intro slot hslot
  rw [orderedAddrSlots] at horder
  split at horder
  · rw [Option.some.injEq] at horder
    simp [← horder] at hslot
  · obtain ⟨nodes, _, rfl⟩ := Option.map_eq_some_iff.1 horder
    obtain ⟨node, _, hnode⟩ := mem_filterMap.1 hslot
    exact mem_of_getElem? hnode

variable {p : AddrPool} {slot : Nat} {s s' : System} {a : Action}

theorem mem_filterExcludedAddrSlots {slots : List Nat} {excluded : List Bytes}
    (hslot : slot ∈ p.filterExcludedAddrSlots slots excluded) : slot ∈ slots := by
  rw [AddrPool.filterExcludedAddrSlots] at hslot
  split at hslot
  · exact hslot
  · exact (mem_filter.1 hslot).1

theorem tryAcquireAddrSlot_eq_some {p' : AddrPool} (h : p.tryAcquireAddrSlot slot = some p') :
    ∃ o, p.objects[slot]? = some o ∧ o.sem < p.concurrency ∧
      p' = { p with objects := p.objects.set slot { o with sem := o.sem + 1 } } := by
  rw [AddrPool.tryAcquireAddrSlot] at h
  split at h
  · rename_i o ho
    split at h
    · rename_i hroom
      exact ⟨o, ho, hroom, (Option.some.inj h).symm⟩
    · simp at h
  · simp at h

theorem releaseAddrSlot_eq_some {p' : AddrPool} (h : p.releaseAddrSlot slot = some p') :
    ∃ o, p.objects[slot]? = some o ∧ 0 < o.sem ∧
      p' = { p with objects := p.objects.set slot { o with sem := o.sem - 1 } } := by
  rw [AddrPool.releaseAddrSlot] at h
  split at h
  · rename_i o ho
    split at h
    · rename_i htoken
      exact ⟨o, ho, htoken, (Option.some.inj h).symm⟩
    · simp at h
  · simp at h

def AddrPool.setSem (p : AddrPool) (slot : Nat) (o : AddrSlot) (sem : Nat) : AddrPool :=
  { p with objects := p.objects.set slot { o with sem := sem } }

inductive Effect (s : System) : Action → System → Prop
  | joins : Effect s .join { s with clients := s.clients ++ [.idle] }
  | replaces (addrs : List BuildkitAddr) :
      Effect s (.replace addrs) { s with pool := s.pool.replace addrs }
  | moves {a : Action} {i : Nat} {c c' : Client} (hclient : s.clients[i]? = some c)
      (hbefore : ∀ slot, c.holds slot = 0) (hafter : ∀ slot, c'.holds slot = 0)
      (hrefs : ∀ slot ∈ c'.refs, slot ∈ s.pool.slots) : Effect s a (s.setClient i c')
  | acquires {a : Action} {i slot : Nat} {slots : List Nat} {o : AddrSlot}
      (hclient : s.clients[i]? = some (.acquiring slots)) (hslot : slot ∈ slots)
      (ho : s.pool.objects[slot]? = some o) (hroom : o.sem < s.pool.concurrency) :
      Effect s a (System.setClient { s with pool := s.pool.setSem slot o (o.sem + 1) } i (.holding slot))
  | releases {a : Action} {i slot : Nat} {o : AddrSlot} (hclient : s.clients[i]? = some (.holding slot))
      (ho : s.pool.objects[slot]? = some o) (htoken : 0 < o.sem) :
      Effect s a (System.setClient { s with pool := s.pool.setSem slot o (o.sem - 1) } i .idle)

theorem step_effect (h : step s a = some s') : Effect s a s' := by
  cases a with
  | join =>
    obtain rfl := Option.some.inj h
    exact .joins
  | replace addrs =>
    obtain rfl := Option.some.inj h
    exact .replaces addrs
  | snapshot i key excluded =>
    simp only [step] at h
    split at h
    · rename_i order hclient horder
      obtain rfl := Option.some.inj h
      apply Effect.moves hclient (fun _ => rfl) (fun _ => rfl)
      intro slot hslot
      exact mem_orderedAddrSlots horder slot (mem_filterExcludedAddrSlots hslot)
    · simp at h
  | acquire i slot =>
    simp only [step] at h
    split at h
    · rename_i slots pool hclient hpool
      obtain ⟨o, ho, hroom, rfl⟩ := tryAcquireAddrSlot_eq_some hpool
      split at h
      · rename_i hmem
        obtain rfl := Option.some.inj h
        exact .acquires hclient hmem ho hroom
      · simp at h
    · simp at h
  | abandon i =>
    simp only [step] at h
    split at h
    · rename_i slots hclient
      obtain rfl := Option.some.inj h
      exact .moves hclient (fun _ => rfl) (fun _ => rfl) (by simp [Client.refs])
    · simp at h
  | release i =>
    simp only [step] at h
    split at h
    · rename_i slot hclient
      obtain ⟨pool, hpool, rfl⟩ := Option.map_eq_some_iff.1 h
      obtain ⟨o, ho, htoken, rfl⟩ := releaseAddrSlot_eq_some hpool
      exact .releases hclient ho htoken
    · simp at h

/-! ### The tokens of a slot -/

structure Counted (s : System) : Prop where
  slots_lt : ∀ slot ∈ s.pool.slots, slot < s.pool.objects.length
  refs_lt : ∀ c ∈ s.clients, ∀ slot ∈ c.refs, slot < s.pool.objects.length
  tokens : ∀ (slot : Nat) (o : AddrSlot), s.pool.objects[slot]? = some o → o.sem = Ledger.total (Client.holds slot) s.clients
  room : ∀ (slot : Nat) (o : AddrSlot), s.pool.objects[slot]? = some o → o.sem ≤ s.pool.concurrency

theorem setSem_length (p : AddrPool) (slot : Nat) (o : AddrSlot) (sem : Nat) :
    (p.setSem slot o sem).objects.length = p.objects.length := by
  rw [AddrPool.setSem, length_set]

theorem setSem_get {o : AddrSlot} (ho : p.objects[slot]? = some o) (sem : Nat) {other : Nat} {o' : AddrSlot}
    (h : (p.setSem slot o sem).objects[other]? = some o') :
    (other = slot ∧ o'.sem = sem) ∨ (other ≠ slot ∧ p.objects[other]? = some o') := by
  rw [AddrPool.setSem] at h
  by_cases heq : slot = other
  · subst heq
    obtain ⟨hlt, _⟩ := List.getElem?_eq_some_iff.1 ho
    rw [getElem?_set_self hlt, Option.some.injEq] at h
    exact .inl ⟨rfl, by rw [← h]⟩
  · rw [getElem?_set_ne heq] at h
    exact .inr ⟨fun hne => heq hne.symm, h⟩

theorem Counted.refs_set (hcounted : Counted s) {i : Nat} {c : Client} {n : Nat}
    (hn : s.pool.objects.length ≤ n) (hc : ∀ slot ∈ c.refs, slot < n) :
    ∀ d ∈ s.clients.set i c, ∀ slot ∈ d.refs, slot < n := by
  intro d hd slot hslot
  rcases mem_or_eq_of_mem_set hd with hold | rfl
  · exact lt_of_lt_of_le (hcounted.refs_lt d hold slot hslot) hn
  · exact hc slot hslot

theorem counted_step (hcounted : Counted s) (heffect : Effect s a s') : Counted s' := by
  cases heffect with
  | joins =>
    refine ⟨hcounted.slots_lt, ?_, ?_, hcounted.room⟩
    · intro c hc slot hslot
      rcases mem_append.1 hc with hold | hnew
      · exact hcounted.refs_lt c hold slot hslot
      · rw [mem_singleton.1 hnew] at hslot
        simp [Client.refs] at hslot
    · intro slot o ho
      rw [total_append, ← hcounted.tokens slot o ho]
      rfl
  | replaces addrs =>
    have hobjects := s.pool.replace_objects addrs
    have hlen : s.pool.objects.length ≤ (s.pool.replace addrs).objects.length := by
      rw [hobjects, length_append]
      exact Nat.le_add_right _ _
    -- The new objects have no tokens, and nobody reaches them yet.
    have hnew : ∀ (slot : Nat) (o : AddrSlot), (s.pool.replace addrs).objects[slot]? = some o →
        s.pool.objects[slot]? = some o ∨ (s.pool.objects.length ≤ slot ∧ o.sem = 0) := by
      intro slot o ho
      rw [hobjects] at ho
      by_cases hlt : slot < s.pool.objects.length
      · rw [getElem?_append_left hlt] at ho
        exact .inl ho
      · rw [getElem?_append_right (by omega)] at ho
        obtain ⟨addr, _, rfl⟩ := List.mem_map.1 (mem_of_getElem? ho)
        exact .inr ⟨by omega, rfl⟩
    refine ⟨?_, ?_, ?_, ?_⟩
    · intro slot hslot
      rcases s.pool.mem_replace_slots addrs hslot with hold | hmade
      · exact lt_of_lt_of_le (hcounted.slots_lt slot hold) hlen
      · exact hmade.2
    · intro c hc slot hslot
      exact lt_of_lt_of_le (hcounted.refs_lt c hc slot hslot) hlen
    · intro slot o ho
      rcases hnew slot o ho with hold | ⟨hge, hzero⟩
      · exact hcounted.tokens slot o hold
      · rw [hzero]
        symm
        apply total_eq_zero
        intro c hc
        cases c with
        | idle | acquiring => rfl
        | holding held =>
          have hheld := hcounted.refs_lt _ hc held (by simp [Client.refs])
          rw [Client.holds, if_neg (by omega)]
    · intro slot o ho
      rcases hnew slot o ho with hold | ⟨_, hzero⟩
      · exact hcounted.room slot o hold
      · rw [hzero]
        exact Nat.zero_le _
  | @moves _ i c c' hclient hbefore hafter hrefs =>
    refine ⟨hcounted.slots_lt, ?_, ?_, hcounted.room⟩
    · exact hcounted.refs_set le_rfl fun slot hslot => hcounted.slots_lt slot (hrefs slot hslot)
    · intro slot o ho
      apply balance_set _ hclient (hcounted.tokens slot o ho)
      rw [hbefore, hafter]
  | @acquires _ i slot slots o hclient hslot ho hroom =>
    have hlt := hcounted.refs_lt _ (mem_of_getElem? hclient) slot hslot
    refine ⟨?_, ?_, ?_, ?_⟩
    · intro other hother
      exact lt_of_lt_of_eq (hcounted.slots_lt other hother) (setSem_length _ _ _ _).symm
    · apply hcounted.refs_set (le_of_eq (setSem_length _ _ _ _).symm)
      intro other hother
      rw [mem_singleton.1 hother, setSem_length]
      exact hlt
    · intro other o' ho'
      rcases setSem_get ho _ ho' with ⟨rfl, hsem⟩ | ⟨hne, hold⟩
      · apply balance_set _ hclient (hcounted.tokens other o ho)
        simp [Client.holds, hsem]
      · apply balance_set _ hclient (hcounted.tokens other o' hold)
        simp [Client.holds, hne.symm]
    · intro other o' ho'
      rcases setSem_get ho _ ho' with ⟨_, hsem⟩ | ⟨_, hold⟩
      · rw [hsem]
        exact hroom
      · exact hcounted.room other o' hold
  | @releases _ i slot o hclient ho htoken =>
    refine ⟨?_, ?_, ?_, ?_⟩
    · intro other hother
      exact lt_of_lt_of_eq (hcounted.slots_lt other hother) (setSem_length _ _ _ _).symm
    · apply hcounted.refs_set (le_of_eq (setSem_length _ _ _ _).symm)
      simp [Client.refs]
    · intro other o' ho'
      rcases setSem_get ho _ ho' with ⟨rfl, hsem⟩ | ⟨hne, hold⟩
      · apply balance_set _ hclient (hcounted.tokens other o ho)
        simp only [Client.holds, hsem, if_true]
        omega
      · apply balance_set _ hclient (hcounted.tokens other o' hold)
        simp [Client.holds, hne.symm]
    · intro other o' ho'
      rcases setSem_get ho _ ho' with ⟨_, hsem⟩ | ⟨_, hold⟩
      · rw [hsem]
        exact le_trans (Nat.sub_le _ _) (hcounted.room slot o ho)
      · exact hcounted.room other o' hold

theorem counted_run {as : List Action} (hcounted : Counted s) (hrun : Runs.exec step s as = some s') :
    Counted s' :=
  Runs.exec_invariant step (fun _ _ _ hinv hstep => counted_step hinv (step_effect hstep)) hcounted hrun

theorem concurrency_step (heffect : Effect s a s') : s'.pool.concurrency = s.pool.concurrency := by
  cases heffect <;> rfl

def initial (concurrency : Nat) : System := ⟨⟨concurrency, [], []⟩, []⟩

theorem counted_initial (concurrency : Nat) : Counted (initial concurrency) := by
  constructor <;> simp [initial]

theorem concurrency_run {concurrency : Nat} {as : List Action}
    (hrun : Runs.exec step (initial concurrency) as = some s) : s.pool.concurrency = concurrency := by
  have hkeep : ∀ s a s', s.pool.concurrency = concurrency → step s a = some s' →
      s'.pool.concurrency = concurrency :=
    fun s a s' hbefore hstep => (concurrency_step (step_effect hstep)).trans hbefore
  exact Runs.exec_invariant step hkeep rfl hrun

/-! ### The holders of an address -/

def System.Live (s : System) (slot : Nat) : Prop := slot ∈ s.pool.slots ∨ ∃ c ∈ s.clients, slot ∈ c.refs

def Distinct (s : System) : Prop :=
  ∀ slot other addr, s.Live slot → s.Live other → s.pool.address slot = some addr →
    s.pool.address other = some addr → slot = other

def FreshAddresses (s : System) (addrs : List BuildkitAddr) : Prop :=
  ((s.pool.fresh addrs).map fun a => a.addr).Nodup ∧
    ∀ a ∈ s.pool.fresh addrs, ∀ c ∈ s.clients, ∀ slot ∈ c.refs, s.pool.address slot ≠ some a.addr

instance (s : System) (addrs : List BuildkitAddr) : Decidable (FreshAddresses s addrs) :=
  inferInstanceAs (Decidable (_ ∧ _))

def RefreshesFresh (s : System) : Action → Prop
  | .replace addrs => FreshAddresses s addrs
  | _ => True

instance (s : System) : ∀ a, Decidable (RefreshesFresh s a)
  | .replace addrs => inferInstanceAs (Decidable (FreshAddresses s addrs))
  | .join | .snapshot .. | .acquire .. | .abandon _ | .release _ => isTrue trivial

theorem setSem_address (p : AddrPool) {o : AddrSlot} (ho : p.objects[slot]? = some o) (sem other : Nat) :
    (p.setSem slot o sem).address other = p.address other := by
  simp only [AddrPool.address, AddrPool.setSem]
  by_cases heq : slot = other
  · subst heq
    obtain ⟨hlt, _⟩ := List.getElem?_eq_some_iff.1 ho
    rw [getElem?_set_self hlt, ho]
    rfl
  · rw [getElem?_set_ne heq]

theorem Distinct.of_live (hdistinct : Distinct s)
    (haddress : ∀ slot, s'.pool.address slot = s.pool.address slot)
    (hlive : ∀ slot, s'.Live slot → s.Live slot) : Distinct s' := by
  intro slot other addr hslot hother haddr haddr'
  rw [haddress] at haddr haddr'
  exact hdistinct slot other addr (hlive slot hslot) (hlive other hother) haddr haddr'

theorem live_set {i : Nat} {c : Client} (hslots : p.slots = s.pool.slots)
    (hrefs : ∀ slot ∈ c.refs, s.Live slot) (hlive : (System.setClient { s with pool := p } i c).Live slot) :
    s.Live slot := by
  rcases hlive with hpool | ⟨d, hd, hslot⟩
  · exact .inl (hslots ▸ hpool)
  · rcases mem_or_eq_of_mem_set hd with hold | rfl
    · exact .inr ⟨d, hold, hslot⟩
    · exact hrefs slot hslot

theorem distinct_replace {addrs : List BuildkitAddr} (hcounted : Counted s) (hdistinct : Distinct s)
    (hfresh : FreshAddresses s addrs) : Distinct { s with pool := s.pool.replace addrs } := by
  -- What is reachable afterwards was reachable before, or is a new slot of a fresh address.
  have hlive : ∀ slot, System.Live { s with pool := s.pool.replace addrs } slot →
      (s.Live slot ∧ slot < s.pool.objects.length) ∨ s.pool.objects.length ≤ slot := by
    intro slot hslot
    rcases hslot with hpool | ⟨c, hc, href⟩
    · rcases s.pool.mem_replace_slots addrs hpool with hold | hmade
      · exact .inl ⟨.inl hold, hcounted.slots_lt slot hold⟩
      · exact .inr hmade.1
    · exact .inl ⟨.inr ⟨c, hc, href⟩, hcounted.refs_lt c hc slot href⟩
  have hclash : ∀ {slot other : Nat} {addr : Bytes}, s.Live slot → slot < s.pool.objects.length →
      s.pool.objects.length ≤ other → (s.pool.replace addrs).address slot = some addr →
      (s.pool.replace addrs).address other = some addr → False := by
    intro slot other addr hslot hlt hge haddr haddr'
    rw [s.pool.replace_address addrs hlt] at haddr
    rw [s.pool.replace_address_fresh addrs hge] at haddr'
    obtain ⟨a, ha, rfl⟩ := Option.map_eq_some_iff.1 haddr'
    have hmem := mem_of_getElem? ha
    rcases hslot with hpool | ⟨c, hc, href⟩
    · have hnone : s.pool.existing a.addr = none := by
        simpa [AddrPool.fresh] using (mem_filter.1 hmem).2
      exact AddrPool.existing_eq_none hnone slot hpool haddr
    · exact hfresh.2 a hmem c hc slot href haddr
  intro slot other addr hslot hother haddr haddr'
  rcases hlive slot hslot with ⟨hold, hlt⟩ | hge <;> rcases hlive other hother with ⟨hold', hlt'⟩ | hge'
  · simp only [s.pool.replace_address addrs hlt] at haddr
    simp only [s.pool.replace_address addrs hlt'] at haddr'
    exact hdistinct slot other addr hold hold' haddr haddr'
  · exact (hclash hold hlt hge' haddr haddr').elim
  · exact (hclash hold' hlt' hge haddr' haddr).elim
  · simp only [s.pool.replace_address_fresh addrs hge] at haddr
    simp only [s.pool.replace_address_fresh addrs hge'] at haddr'
    rw [← getElem?_map] at haddr haddr'
    have hlt := (List.getElem?_eq_some_iff.1 haddr).1
    have hindex := (getElem?_inj hlt hfresh.1).1 (haddr.trans haddr'.symm)
    omega

theorem distinct_step (hcounted : Counted s) (hdistinct : Distinct s) (hfresh : RefreshesFresh s a)
    (heffect : Effect s a s') : Distinct s' := by
  cases heffect with
  | joins =>
    refine hdistinct.of_live (fun _ => rfl) ?_
    intro slot hlive
    rcases hlive with hpool | ⟨c, hc, hslot⟩
    · exact .inl hpool
    · rcases mem_append.1 hc with hold | hnew
      · exact .inr ⟨c, hold, hslot⟩
      · rw [mem_singleton.1 hnew] at hslot
        simp [Client.refs] at hslot
  | replaces addrs => exact distinct_replace hcounted hdistinct hfresh
  | moves hclient hbefore hafter hrefs =>
    refine hdistinct.of_live (fun _ => rfl) ?_
    intro slot
    exact live_set rfl fun other hother => .inl (hrefs other hother)
  | acquires hclient hslot ho hroom =>
    apply hdistinct.of_live fun slot => setSem_address _ ho _ slot
    intro slot
    apply live_set rfl
    intro other hother
    rw [mem_singleton.1 hother]
    exact .inr ⟨_, mem_of_getElem? hclient, hslot⟩
  | releases hclient ho htoken =>
    apply hdistinct.of_live fun slot => setSem_address _ ho _ slot
    intro slot
    exact live_set rfl (by simp [Client.refs])

theorem holders_le (hcounted : Counted s) (hdistinct : Distinct s) (addr : Bytes) :
    s.holders addr ≤ s.pool.concurrency := by
  by_cases hnone : ∀ c ∈ s.clients, c.holdsAddr s.pool addr = 0
  · rw [System.holders, total_eq_zero _ hnone]
    exact Nat.zero_le _
  · push Not at hnone
    obtain ⟨c, hc, hholds⟩ := hnone
    cases c with
    | idle | acquiring => simp [Client.holdsAddr] at hholds
    | holding slot =>
      have haddr : s.pool.address slot = some addr := by
        by_contra hne
        simp [Client.holdsAddr, hne] at hholds
      have hlt := hcounted.refs_lt _ hc slot (by simp [Client.refs])
      have hobject := getElem?_eq_getElem hlt
      have hsame : ∀ d ∈ s.clients, d.holdsAddr s.pool addr ≤ d.holds slot := by
        intro d hd
        cases d with
        | idle | acquiring => exact Nat.zero_le _
        | holding other =>
          by_cases haddr' : s.pool.address other = some addr
          · have heq := hdistinct other slot addr (.inr ⟨_, hd, by simp [Client.refs]⟩)
              (.inr ⟨_, hc, by simp [Client.refs]⟩) haddr' haddr
            rw [Client.holdsAddr, if_pos haddr', Client.holds, if_pos heq]
          · simp [Client.holdsAddr, haddr']
      calc s.holders addr ≤ total (Client.holds slot) s.clients := total_le_total _ hsame
        _ = s.pool.objects[slot].sem := (hcounted.tokens slot _ hobject).symm
        _ ≤ s.pool.concurrency := hcounted.room slot _ hobject

/-- With fresh addresses only, none has more clients than the concurrency. -/
theorem holders_le_concurrency {concurrency : Nat} {as : List Action} {s : System}
    (hfresh : Runs.Along step RefreshesFresh (initial concurrency) as)
    (hrun : Runs.exec step (initial concurrency) as = some s) (addr : Bytes) :
    s.holders addr ≤ concurrency := by
  have hkeep : ∀ s a s', (Counted s ∧ Distinct s) → RefreshesFresh s a → step s a = some s' →
      Counted s' ∧ Distinct s' := by
    rintro s a s' ⟨hcounted, hdistinct⟩ hok hstep
    have heffect := step_effect hstep
    exact ⟨counted_step hcounted heffect, distinct_step hcounted hdistinct hok heffect⟩
  have hdistinct : Distinct (initial concurrency) := by
    intro slot other addr hlive
    simp [System.Live, initial] at hlive
  obtain ⟨hcounted, hdistinct⟩ := Runs.exec_invariant_along step hkeep
    ⟨counted_initial concurrency, hdistinct⟩ hfresh hrun
  calc s.holders addr ≤ s.pool.concurrency := holders_le hcounted hdistinct addr
    _ = concurrency := concurrency_run hrun

def worker : BuildkitAddr := ⟨ascii "10.0.0.1:9094", ascii "tcp://10.0.0.1:9094", ascii "10.0.0.1"⟩

theorem holders_le_concurrency_worker : ∃ s,
    Runs.exec step (initial 1) [.replace [worker], .join, .snapshot 0 (ascii "app") [], .acquire 0 0] =
      some s ∧ s.holders worker.addr ≤ 1 := by
  have hruns : (Runs.exec step (initial 1) [.replace [worker], .join, .snapshot 0 (ascii "app") [],
      .acquire 0 0]).isSome = true := by decide +kernel
  obtain ⟨s, hrun⟩ := Option.isSome_iff_exists.1 hruns
  exact ⟨s, hrun, holders_le_concurrency (by decide +kernel) hrun worker.addr⟩

def numericNet : Net where
  splitHostPort := fun s =>
    if s = ascii "10.0.0.1:9094" then .ok (ascii "10.0.0.1", ascii "9094")
    else .error (ascii "missing port in address")
  parseIP := fun host => if host = ascii "10.0.0.1" then some host else none
  lookupHost := fun _ => .error (ascii "no such host")
  joinHostPort := fun host port => host ++ ascii ":" ++ port

def repeatedAddrs : List BuildkitAddr := [worker, { worker with original := ascii "tcp://10.0.0.1:9094" }]

theorem repeated_address_exceeds_concurrency :
    parseBuildkitAddrs numericNet (ascii "10.0.0.1:9094,tcp://10.0.0.1:9094") = .ok repeatedAddrs ∧
    (Runs.exec step (initial 1) [.replace repeatedAddrs, .join, .join, .snapshot 0 (ascii "app") [],
        .acquire 0 0, .snapshot 1 (ascii "app") [], .acquire 1 1]).map (fun s => s.holders worker.addr) =
      some 2 :=
  ⟨by decide +kernel, by decide +kernel⟩

end BuildkitService.Pool
