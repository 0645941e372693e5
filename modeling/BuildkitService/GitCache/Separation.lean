import BuildkitService.GitCache.Paths

/-!
# Whether two repositories share anything on the disk

A repository has four paths: its mirror, its stamp, its lock and the clone that becomes the mirror.
-/

namespace BuildkitService.GitCache

open Strings Path List

/-! ### The footprint -/

def footprint (root : PurePath) (pid : Nat) (host repo : Bytes) : List PurePath :=
  let paths := repoPaths root host repo
  [paths.repoPath, paths.stampPath, paths.lockPath] ++ (tmpClonePath paths.repoPath pid).toList

def Within (p q : PurePath) : Prop := p.root = q.root ∧ q.parts <+: p.parts

def Separate (ps qs : List PurePath) : Prop := ∀ p ∈ ps, ∀ q ∈ qs, ¬ Within p q ∧ ¬ Within q p

instance (p q : PurePath) : Decidable (Within p q) := inferInstanceAs (Decidable (p.root = q.root ∧ q.parts <+: p.parts))

instance (ps qs : List PurePath) : Decidable (Separate ps qs) :=
  inferInstanceAs (Decidable (∀ p ∈ ps, ∀ q ∈ qs, ¬ Within p q ∧ ¬ Within q p))

def Under (pid : Nat) (repo other : Bytes) : Prop :=
  (other = ascii ".git" ∧ hasPrefix repo (ascii ".git/")) ∨ hasPrefix repo (other ++ ascii ".last_fetch/") ∨
    hasPrefix repo (other ++ ascii ".tmp." ++ decimal pid ++ ascii "/")

/-! ### Names with slashes -/

theorem split_prefix_iff {s t : Bytes} : split slash s <+: split slash t ↔ s = t ∨ s ++ [slash] <+: t := by
  constructor
  · rintro ⟨more, hmore⟩
    have htext := intercalate_split_self slash t
    cases more with
    | nil =>
      rw [← hmore, append_nil, intercalate_split_self] at htext
      exact .inl htext
    | cons part more =>
      rw [← hmore, intercalate_append (split_ne_nil slash s) (cons_ne_nil part more), intercalate_split_self] at htext
      exact .inr ⟨_, (append_assoc _ _ _).trans htext⟩
  · rintro (rfl | ⟨rest, rfl⟩)
    · exact prefix_rfl
    · rw [append_assoc, singleton_append, split_append]
      exact prefix_append _ _

variable {ext host repo : Bytes}

theorem slash_prefix_append {s t : Bytes} (hext : slash ∉ ext) :
    s ++ [slash] <+: t ++ ext ↔ s ++ [slash] <+: t := by
  constructor
  · intro hpre
    by_cases hshort : (s ++ [slash]).length ≤ t.length
    · exact prefix_of_prefix_length_le hpre (prefix_append t ext) hshort
    · -- otherwise the slash would be in what follows
      obtain ⟨rest, hrest⟩ := hpre
      have hts : t <+: s := by
        rw [length_append, length_singleton] at hshort
        refine prefix_of_prefix_length_le (prefix_append t ext) ?_ (by omega)
        rw [← hrest, append_assoc]
        exact prefix_append s _
      obtain ⟨d, rfl⟩ := hts
      rw [append_assoc, append_assoc] at hrest
      have heq := append_cancel_left hrest
      rw [← heq] at hext
      exact absurd (mem_append_right d (mem_append_left rest mem_cons_self)) hext
  · intro hpre
    exact hpre.trans (prefix_append t ext)

/-! ### Places -/

def extensions (pid : Nat) : List Bytes := [[], ascii ".last_fetch", ascii ".tmp." ++ decimal pid]

theorem slash_not_mem_extension {pid : Nat} (hext : ext ∈ extensions pid) : slash ∉ ext := by
  simp only [extensions, mem_cons, not_mem_nil, or_false] at hext
  rcases hext with rfl | rfl | rfl
  · exact not_mem_nil
  · decide
  · rw [mem_append, not_or]
    exact ⟨by decide, fun hmem => absurd (mem_decimal hmem).1 (by decide)⟩

def lockPlace (host repo : Bytes) : Place := [ascii ".locks", lockKey (place host repo) ++ ascii ".lock"]

section

variable (haccepted : Accepted host repo)

include haccepted

theorem Accepted.mem_footprint (root : PurePath) (pid : Nat) {p : PurePath} :
    p ∈ footprint root pid host repo ↔
      p = ⟨root.root, root.parts ++ lockPlace host repo⟩ ∨
      ∃ ext ∈ extensions pid, p = ⟨root.root, root.parts ++ (host :: split slash (repo ++ ext))⟩ := by
  have hstamp : ascii ".last_fetch" ∈ extensions pid := by simp [extensions]
  have htmp : ascii ".tmp." ++ decimal pid ∈ extensions pid := by simp [extensions]
  rw [footprint, haccepted.tmpClonePath_eq, haccepted.repoPaths_eq, tmpPath_eq,
    extended_place host repo (slash_not_mem_extension hstamp), extended_place host repo (slash_not_mem_extension htmp)]
  simp only [extensions, mem_cons, not_mem_nil, or_false, mem_append, Option.toList_some,
    exists_eq_or_imp, exists_eq_left, append_nil, place, lockPlace]
  tauto

theorem Accepted.lockKey_eq : lockKey (place host repo) = host ++ (ascii "__" ++ underscored repo) := by
  have hhost : underscored host = host := by
    rw [underscored]
    refine (flatMap_congr ?_).trans (flatMap_singleton' host)
    intro b hb
    rw [if_neg]
    rintro rfl
    exact haccepted.host_slash hb
  rw [← lockKey_place haccepted.host_slash, underscored, flatMap_append, flatMap_append, ← underscored,
    ← underscored, hhost, append_assoc]
  rfl

theorem lockPlace_eq_iff {host' repo' : Bytes} (haccepted' : Accepted host' repo') :
    lockPlace host repo = lockPlace host' repo' ↔ host = host' ∧ underscored repo = underscored repo' := by
  have htake : ∀ {host repo : Bytes}, Accepted host repo → ∀ rest : Bytes,
      (host ++ (ascii "__" ++ rest)).takeWhile (fun b => b != 0x5F) = host := by
    intro host repo haccepted rest
    rw [takeWhile_append_of_pos]
    · exact append_nil host
    · intro b hb
      rw [bne_iff_ne]
      rintro rfl
      cases haccepted.bytes _ hb
  rw [lockPlace, lockPlace, haccepted.lockKey_eq, haccepted'.lockKey_eq, cons.injEq, cons.injEq,
    append_cancel_right_eq]
  constructor
  · rintro ⟨_, hkey, _⟩
    have hhost : host = host' := by
      rw [← htake haccepted (underscored repo), hkey, htake haccepted']
    subst hhost
    exact ⟨rfl, append_cancel_left (append_cancel_left hkey)⟩
  · rintro ⟨rfl, hrepo⟩
    rw [hrepo]
    exact ⟨rfl, rfl, rfl⟩

end

theorem last_of_extension {pid : Nat} (hext : ext ∈ extensions pid) (stem : Bytes) :
    ∃ b, (stem ++ ascii ".git" ++ ext).getLast? = some b ∧
      ((ext = [] ∧ b = 0x74) ∨ (ext = ascii ".last_fetch" ∧ b = 0x68) ∨
        (ext = ascii ".tmp." ++ decimal pid ∧ b ≤ 0x39)) := by
  simp only [extensions, mem_cons, not_mem_nil, or_false] at hext
  rcases hext with rfl | rfl | rfl
  · refine ⟨0x74, ?_, .inl ⟨rfl, rfl⟩⟩
    rw [append_nil, getLast?_append_of_ne_nil _ (by decide)]
    rfl
  · refine ⟨0x68, ?_, .inr (.inl ⟨rfl, rfl⟩)⟩
    rw [getLast?_append_of_ne_nil _ (by decide)]
    rfl
  · refine ⟨(decimal pid).getLast (decimal_ne_nil pid), ?_, .inr (.inr ⟨rfl, (mem_decimal (getLast_mem _)).2⟩)⟩
    rw [← append_assoc, getLast?_append_of_ne_nil _ (decimal_ne_nil pid)]
    exact getLast?_eq_some_getLast (decimal_ne_nil pid)

theorem extension_eq {pid : Nat} {stem stem' ext' : Bytes} (hext : ext ∈ extensions pid)
    (hext' : ext' ∈ extensions pid) (heq : stem ++ ascii ".git" ++ ext = stem' ++ ascii ".git" ++ ext') :
    ext = ext' := by
  obtain ⟨b, hb, hcases⟩ := last_of_extension hext stem
  obtain ⟨b', hb', hcases'⟩ := last_of_extension hext' stem'
  obtain rfl : b = b' := by
    rw [heq, hb'] at hb
    exact (Option.some.inj hb).symm
  rcases hcases with ⟨rfl, rfl⟩ | ⟨rfl, rfl⟩ | ⟨rfl, hdigit⟩
  · rcases hcases' with ⟨rfl, _⟩ | ⟨_, hother⟩ | ⟨_, hother⟩
    · rfl
    · exact absurd hother (by decide)
    · exact absurd hother (by decide)
  · rcases hcases' with ⟨_, hother⟩ | ⟨rfl, _⟩ | ⟨_, hother⟩
    · exact absurd hother (by decide)
    · rfl
    · exact absurd hother (by decide)
  · rcases hcases' with ⟨_, rfl⟩ | ⟨_, rfl⟩ | ⟨rfl, _⟩
    · exact absurd hdigit (by decide)
    · exact absurd hdigit (by decide)
    · rfl

theorem shortest_of_safe {path : Bytes} {parts : RepoParts} (hparts : safeRepoParts path = .ok (some parts))
    {front back : Bytes} (hrepo : parts.repo = front ++ ascii ".git" ++ slash :: back) : front = [] := by
  obtain ⟨raw, stem, tail, hdivided, _, hrepo', _⟩ := safeRepoParts_eq hparts
  have hstem := takeWhile_append_dropWhile (p := fun b => b == slash) (l := stem)
  by_contra hne
  refine hdivided.shortest (stem.takeWhile (fun b => b == slash) ++ front) back (append_ne_nil_of_right_ne_nil _ hne) ?_
  rw [append_assoc, append_assoc, ← append_assoc front, ← hrepo, hrepo', ← append_assoc, hstem]

/-! ### Which repositories are separate -/

section Pairs

variable {path path' : Bytes} {parts parts' : RepoParts} (pid : Nat)

def Leads (host repo host' repo' : Bytes) : Prop :=
  lockPlace host repo <+: lockPlace host' repo' ∨
  ∃ ext ∈ extensions pid, ∃ ext' ∈ extensions pid,
    host :: split slash (repo ++ ext) <+: host' :: split slash (repo' ++ ext')

theorem separate_iff {root : PurePath} {host' repo' : Bytes} (haccepted : Accepted host repo)
    (haccepted' : Accepted host' repo') :
    Separate (footprint root pid host repo) (footprint root pid host' repo') ↔
      ¬ Leads pid host repo host' repo' ∧ ¬ Leads pid host' repo' host repo := by
  constructor
  · intro hseparate
    have hlock := hseparate _ ((haccepted.mem_footprint root pid).2 (.inl rfl)) _
      ((haccepted'.mem_footprint root pid).2 (.inl rfl))
    have hnames : ∀ ext ∈ extensions pid, ∀ ext' ∈ extensions pid, _ := fun ext hext ext' hext' =>
      hseparate _ ((haccepted.mem_footprint root pid).2 (.inr ⟨ext, hext, rfl⟩)) _
        ((haccepted'.mem_footprint root pid).2 (.inr ⟨ext', hext', rfl⟩))
    constructor
    · rintro (hpre | ⟨ext, hext, ext', hext', hpre⟩)
      · exact hlock.2 ⟨rfl, (prefix_append_right_inj root.parts).2 hpre⟩
      · exact (hnames ext hext ext' hext').2 ⟨rfl, (prefix_append_right_inj root.parts).2 hpre⟩
    · rintro (hpre | ⟨ext, hext, ext', hext', hpre⟩)
      · exact hlock.1 ⟨rfl, (prefix_append_right_inj root.parts).2 hpre⟩
      · exact (hnames ext' hext' ext hext).1 ⟨rfl, (prefix_append_right_inj root.parts).2 hpre⟩
  · rintro ⟨hleads, hleads'⟩ p hp q hq
    rcases (haccepted.mem_footprint root pid).1 hp with rfl | ⟨ext, hext, rfl⟩
    · rcases (haccepted'.mem_footprint root pid).1 hq with rfl | ⟨ext', hext', rfl⟩
      · constructor
        · exact fun hwithin => hleads' (.inl ((prefix_append_right_inj root.parts).1 hwithin.2))
        · exact fun hwithin => hleads (.inl ((prefix_append_right_inj root.parts).1 hwithin.2))
      · -- no host is the directory of the locks
        constructor
        · intro hwithin
          have hpre := (prefix_append_right_inj root.parts).1 hwithin.2
          exact haccepted'.host_ne (cons_prefix_cons.1 hpre).1
        · intro hwithin
          have hpre := (prefix_append_right_inj root.parts).1 hwithin.2
          exact haccepted'.host_ne (cons_prefix_cons.1 hpre).1.symm
    · rcases (haccepted'.mem_footprint root pid).1 hq with rfl | ⟨ext', hext', rfl⟩
      · constructor
        · intro hwithin
          have hpre := (prefix_append_right_inj root.parts).1 hwithin.2
          exact haccepted.host_ne (cons_prefix_cons.1 hpre).1.symm
        · intro hwithin
          have hpre := (prefix_append_right_inj root.parts).1 hwithin.2
          exact haccepted.host_ne (cons_prefix_cons.1 hpre).1
      · constructor
        · exact fun hwithin => hleads' (.inr ⟨ext', hext', ext, hext, (prefix_append_right_inj root.parts).1 hwithin.2⟩)
        · exact fun hwithin => hleads (.inr ⟨ext, hext, ext', hext', (prefix_append_right_inj root.parts).1 hwithin.2⟩)

theorem under_iff (hparts : safeRepoParts path = .ok (some parts)) (hparts' : safeRepoParts path' = .ok (some parts')) :
    Under pid parts'.repo parts.repo ↔ ∃ ext ∈ extensions pid, parts.repo ++ ext ++ [slash] <+: parts'.repo := by
  obtain ⟨_, _, _, _, _, _, haccepted⟩ := safeRepoParts_eq hparts
  obtain ⟨stem, hstem⟩ := haccepted.git
  have hmirror : parts.repo ++ [] ++ [slash] <+: parts'.repo ↔
      parts.repo = ascii ".git" ∧ hasPrefix parts'.repo (ascii ".git/") = true := by
    rw [hasPrefix, isPrefixOf_iff_prefix, append_nil]
    constructor
    · rintro ⟨back, hback⟩
      have hfront : parts'.repo = stem ++ ascii ".git" ++ slash :: back := by
        rw [← hback, hstem, append_assoc _ [slash]]
        rfl
      obtain rfl := shortest_of_safe hparts' hfront
      exact ⟨hstem, back, by rw [hfront]; rfl⟩
    · rintro ⟨hgit, hpre⟩
      rw [hgit]
      exact hpre
  simp only [extensions, mem_cons, not_mem_nil, or_false, exists_eq_or_imp, exists_eq_left]
  rw [hmirror, Under, hasPrefix, hasPrefix, hasPrefix, isPrefixOf_iff_prefix, isPrefixOf_iff_prefix,
    isPrefixOf_iff_prefix]
  simp only [append_assoc]
  rfl

theorem leads_iff (hparts : safeRepoParts path = .ok (some parts)) (hparts' : safeRepoParts path' = .ok (some parts'))
    (hne : (parts.host, parts.repo) ≠ (parts'.host, parts'.repo)) :
    Leads pid parts.host parts.repo parts'.host parts'.repo ↔
      parts.host = parts'.host ∧ (underscored parts.repo = underscored parts'.repo ∨ Under pid parts'.repo parts.repo) := by
  obtain ⟨_, _, _, _, _, _, haccepted⟩ := safeRepoParts_eq hparts
  obtain ⟨_, _, _, _, _, _, haccepted'⟩ := safeRepoParts_eq hparts'
  rw [under_iff pid hparts hparts']
  constructor
  · rintro (hlock | ⟨ext, hext, ext', hext', hpre⟩)
    · obtain ⟨hhost, hrepo⟩ := (lockPlace_eq_iff haccepted haccepted').1 (hlock.eq_of_length rfl)
      exact ⟨hhost, .inl hrepo⟩
    · obtain ⟨hhost, hsplit⟩ := cons_prefix_cons.1 hpre
      refine ⟨hhost, .inr ⟨ext, hext, ?_⟩⟩
      rcases split_prefix_iff.1 hsplit with heq | hslash
      · -- two names are equal only if the repositories are
        obtain ⟨stem, hstem⟩ := haccepted.git
        obtain ⟨stem', hstem'⟩ := haccepted'.git
        have hboth := heq
        rw [hstem, hstem'] at hboth
        obtain rfl := extension_eq hext hext' hboth
        exact absurd (Prod.ext hhost (append_cancel_right heq)) hne
      · exact (slash_prefix_append (slash_not_mem_extension hext')).1 hslash
  · rintro ⟨hhost, hlock | ⟨ext, hext, hpre⟩⟩
    · left
      rw [(lockPlace_eq_iff haccepted haccepted').2 ⟨hhost, hlock⟩]
    · right
      refine ⟨ext, hext, [], mem_cons_self, ?_⟩
      rw [hhost, append_nil]
      exact cons_prefix_cons.2 ⟨rfl, split_prefix_iff.2 (.inr hpre)⟩

end Pairs

def sampleRoot : PurePath := ⟨true, [ascii "var", ascii "cache", ascii "git-mirror"]⟩

end BuildkitService.GitCache
