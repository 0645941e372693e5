import BuildkitService.GitCache.Machine
import BuildkitService.Lib.Path
import BuildkitService.Lib.Regex

/-!
# Where a repository is stored

`safe_repo_parts` reads the host and the repository from the path of a request, and `repo_paths` and
`ensure_mirror` make four paths from them: the mirror, its stamp, its lock and the temporary clone.
-/

namespace BuildkitService.GitCache

open Strings Path List Option

/-! ### Reading the path of a request -/

def isDigit (b : UInt8) : Bool := 0x30 ≤ b && b ≤ 0x39

def isAlnum (b : UInt8) : Bool := (0x61 ≤ b && b ≤ 0x7A) || isDigit b

def notNewline (b : UInt8) : Bool := b != 0x0A

def hostRe : Regex :=
  .seq (.byte isAlnum) (.seq (.star true fun b => isAlnum b || b == 0x2E || b == 0x2D)
    (.seq (.opt (.seq (.literal (ascii ":")) (.upTo isDigit 4))) .atEnd))

def modeRe : Regex :=
  .opt (.seq (.group 1 (.alt (.literal (ascii "cache")) (.literal (ascii "fresh")))) (.literal (ascii "/")))

def gitRe : Regex := .group 3 (.seq (.plus false notNewline) (.literal (ascii ".git")))

def suffixRe : Regex := .seq (.opt (.group 4 (.seq (.literal (ascii "/")) (.star true notNewline)))) .atEnd

def repoRe : Regex :=
  .seq (.literal (ascii "/")) (.seq modeRe (.seq (.group 2 (.plus true fun b => b != slash))
    (.seq (.literal (ascii "/")) (.seq gitRe suffixRe))))

inductive Mode where
  | ttl
  | cache
  | fresh
  deriving DecidableEq, Repr

def Mode.ofGroup : Option Bytes → Mode
  | none => .ttl
  | some text => if text = ascii "cache" then .cache else .fresh

structure RepoParts where
  mode : Mode
  host : Bytes
  repo : Bytes
  suffix : Bytes
  deriving DecidableEq, Repr

def lower (b : UInt8) : UInt8 :=
  if (0x41 ≤ b && b ≤ 0x5A) || (0xC0 ≤ b && b ≤ 0xDE && b != 0xD7) then b + 0x20 else b

def whitespace : Bytes := [0x09, 0x0A, 0x0B, 0x0C, 0x0D, 0x1C, 0x1D, 0x1E, 0x1F, 0x20, 0x85, 0xA0]

def int (s : Bytes) : Option Nat := digits (trim s whitespace)

def afterLastColon (s : Bytes) : Bytes := s.rtakeWhile fun b => b != 0x3A

def checkPort (host : Bytes) : Except Bytes Unit :=
  if host.contains 0x3A then
    match int (afterLastColon host) with
    | none => .error (ascii "invalid literal for int() with base 10")
    | some port => if port < 1 ∨ port > 65535 then .error (ascii "invalid host port") else .ok ()
  else .ok ()

def safeRepoParts (path : Bytes) : Except Bytes (Option RepoParts) :=
  match Regex.first repoRe path with
  | none => .ok none
  | some m =>
      let mode := Mode.ofGroup (m.group 1)
      let host := ((m.group 2).getD []).map lower
      let repo := trim ((m.group 3).getD []) (ascii "/")
      let suffix := (m.group 4).getD []
      if (Regex.first hostRe host).isNone ∨ dotdot ∈ split 0x2E (host.takeWhile fun b => b != 0x3A) then
        .error (ascii "invalid host")
      else
        match checkPort host with
        | .error err => .error err
        | .ok () =>
            if (split slash repo).any fun part => part.isEmpty || part == dot || part == dotdot then
              .error (ascii "invalid repository path")
            else .ok (some ⟨mode, host, repo, suffix⟩)

/-! ### Paths -/

structure PurePath where
  root : Bool
  parts : List Bytes
  deriving DecidableEq, Repr

namespace PurePath

def names (segment : Bytes) : List Bytes := (split slash segment).filter fun name => !name.isEmpty && name != dot

def join (p : PurePath) (segment : Bytes) : PurePath :=
  if rooted segment then ⟨true, names segment⟩ else ⟨p.root, p.parts ++ names segment⟩

def name (p : PurePath) : Bytes := p.parts.getLast?.getD []

def suffix (p : PurePath) : Bytes :=
  let ending := p.name.rtakeWhile fun b => b != 0x2E
  if 1 < p.name.length - ending.length ∧ ending ≠ [] then 0x2E :: ending else []

def withSuffix (p : PurePath) (text : Bytes) : Option PurePath :=
  if slash ∈ text ∨ (text ≠ [] ∧ text.head? ≠ some 0x2E) ∨ text = dot ∨ p.name = [] then none
  else some ⟨p.root, p.parts.dropLast ++ [p.name.take (p.name.length - p.suffix.length) ++ text]⟩

end PurePath

structure RepoPaths where
  repoPath : PurePath
  stampPath : PurePath
  lockPath : PurePath
  deriving DecidableEq, Repr

def underscored (s : Bytes) : Bytes := s.flatMap fun b => if b = slash then ascii "__" else [b]

def repoPaths (cacheRoot : PurePath) (host repo : Bytes) : RepoPaths where
  repoPath := (cacheRoot.join host).join repo
  stampPath := (cacheRoot.join host).join (repo ++ ascii ".last_fetch")
  lockPath := (cacheRoot.join (ascii ".locks")).join (underscored (host ++ ascii "/" ++ repo) ++ ascii ".lock")

def tmpClonePath (repoPath : PurePath) (pid : Nat) : Option PurePath :=
  repoPath.withSuffix (repoPath.suffix ++ ascii ".tmp." ++ decimal pid)

/-! ### What the expressions match -/

def Mode.segment : Mode → Bytes
  | .ttl => []
  | .cache => ascii "cache/"
  | .fresh => ascii "fresh/"

variable {s ext : Bytes} {w : Regex.Way}

theorem mem_modeRe (hw : w ∈ Regex.ways modeRe s) :
    s = (Mode.ofGroup (w.group 1)).segment ++ w.rest ∧ ∀ i ≠ 1, w.group i = none := by
  rcases Regex.mem_alt.1 hw with hgiven | hnone
  · obtain ⟨u, hu, v, hv, rfl⟩ := Regex.mem_seq.1 hgiven
    obtain ⟨word, hword, rfl⟩ := Regex.mem_group.1 hu
    obtain ⟨rest, hrest, rfl⟩ := Regex.mem_literal.1 hv
    have hgroups : ∀ (text : Bytes) i, i ≠ 1 → lookup i [(1, text)] = none := by
      intro text i hi
      rw [lookup_cons, beq_false_of_ne hi]
      rfl
    rcases Regex.mem_alt.1 hword with hcache | hfresh
    · obtain ⟨_, rfl, rfl⟩ := Regex.mem_literal.1 hcache
      obtain rfl := hrest
      exact ⟨rfl, hgroups _⟩
    · obtain ⟨_, rfl, rfl⟩ := Regex.mem_literal.1 hfresh
      obtain rfl := hrest
      exact ⟨rfl, hgroups _⟩
  · obtain rfl := Regex.mem_empty.1 hnone
    exact ⟨rfl, fun _ _ => rfl⟩

theorem forall_notNewline : (∀ b ∈ s, notNewline b = true) ↔ 0x0A ∉ s := by
  simp only [notNewline, bne_iff_ne]
  exact ⟨fun hall hmem => hall _ hmem rfl, fun hnot b hb heq => hnot (heq ▸ hb)⟩

structure Ending (suffix tail : Bytes) : Prop where
  slash : suffix = [] ∨ suffix.head? = some Path.slash
  line : 0x0A ∉ suffix
  tail : tail = [] ∨ tail = ascii "\n"

theorem mem_suffixRe (hw : w ∈ Regex.ways suffixRe s) :
    ∃ suffix tail, s = suffix ++ tail ∧ Ending suffix tail ∧ (w.group 4).getD [] = suffix ∧
      ∀ i ≠ 4, w.group i = none := by
  obtain ⟨u, hu, v, hv, rfl⟩ := Regex.mem_seq.1 hw
  obtain ⟨htail, rfl⟩ := Regex.mem_atEnd.1 hv
  rcases Regex.mem_alt.1 hu with hgiven | hnone
  · obtain ⟨path, hpath, rfl⟩ := Regex.mem_group.1 hgiven
    obtain ⟨x, hx, y, hy, rfl⟩ := Regex.mem_seq.1 hpath
    obtain ⟨_, rfl, rfl⟩ := Regex.mem_literal.1 hx
    obtain ⟨more, rest, rfl, hmore, rfl⟩ := Regex.mem_star.1 hy
    refine ⟨ascii "/" ++ more, rest, rfl, ⟨.inr rfl, ?_, htail⟩, rfl, ?_⟩
    · exact fun hmem => (mem_cons.1 hmem).elim (by decide) (forall_notNewline.1 hmore)
    · intro i hi
      have hlookup : lookup i [(4, ascii "/" ++ more)] = none := by
        rw [lookup_cons, beq_false_of_ne hi]
        rfl
      exact hlookup
  · obtain rfl := Regex.mem_empty.1 hnone
    exact ⟨[], s, rfl, ⟨.inl rfl, not_mem_nil, htail⟩, rfl, fun _ _ => rfl⟩

theorem Ending.matches {suffix tail : Bytes} (hending : Ending suffix tail) :
    (Regex.first suffixRe (suffix ++ tail)).isSome = true := by
  have htail : ∀ w : Regex.Way, w.rest = tail → w ∈ Regex.ways (.opt (.group 4 (.seq (.literal (ascii "/"))
      (.star true notNewline)))) (suffix ++ tail) → (Regex.first suffixRe (suffix ++ tail)).isSome = true := by
    intro w hrest hw
    refine Regex.first_isSome (Regex.mem_seq.2 ⟨w, hw, _, Regex.mem_atEnd.2 ⟨?_, rfl⟩, rfl⟩)
    rw [hrest]
    exact hending.tail
  cases suffix with
  | nil => exact htail _ rfl (Regex.mem_alt.2 (.inr (Regex.mem_empty.2 rfl)))
  | cons b suffix =>
    obtain hnil | hhead := hending.slash
    · cases hnil
    · obtain rfl : b = Path.slash := Option.some.inj hhead
      have hline := not_mem_of_not_mem_cons hending.line
      refine htail _ rfl (Regex.mem_alt.2 (.inl (Regex.mem_group.2 ⟨_, Regex.mem_seq.2 ⟨_,
        Regex.mem_literal.2 ⟨suffix ++ tail, rfl, rfl⟩, _, Regex.mem_star.2
          ⟨suffix, tail, rfl, forall_notNewline.2 hline, rfl⟩, rfl⟩, rfl⟩)))

theorem mem_gitRe : w ∈ Regex.ways gitRe s ↔
    ∃ stem rest, s = stem ++ ascii ".git" ++ rest ∧ stem ≠ [] ∧ 0x0A ∉ stem ∧
      w = ⟨stem ++ ascii ".git", rest, [(3, stem ++ ascii ".git")]⟩ := by
  constructor
  · intro hw
    obtain ⟨u, hu, rfl⟩ := Regex.mem_group.1 hw
    obtain ⟨x, hx, y, hy, rfl⟩ := Regex.mem_seq.1 hu
    obtain ⟨stem, _, rfl, hne, hline, rfl⟩ := Regex.mem_plus.1 hx
    obtain ⟨rest, hrest, rfl⟩ := Regex.mem_literal.1 hy
    obtain rfl := hrest
    exact ⟨stem, rest, (append_assoc _ _ _).symm, hne, forall_notNewline.1 hline, rfl⟩
  · rintro ⟨stem, rest, rfl, hne, hline, rfl⟩
    rw [append_assoc]
    exact Regex.mem_group.2 ⟨_, Regex.mem_seq.2 ⟨_, Regex.mem_plus.2
      ⟨stem, _, rfl, hne, forall_notNewline.2 hline, rfl⟩, _, Regex.mem_literal.2 ⟨rest, rfl, rfl⟩, rfl⟩, rfl⟩

structure Divided (path : Bytes) (mode : Mode) (host stem suffix tail : Bytes) : Prop where
  path : path = ascii "/" ++ mode.segment ++ host ++ ascii "/" ++ (stem ++ ascii ".git") ++ suffix ++ tail
  host_ne_nil : host ≠ []
  host_slash : slash ∉ host
  stem_ne_nil : stem ≠ []
  stem_line : 0x0A ∉ stem
  ending : Ending suffix tail
  shortest : ∀ front back, front ≠ [] → stem ++ ascii ".git" ≠ front ++ ascii ".git" ++ slash :: back

theorem first_repoRe {path : Bytes} {m : Regex.Way} (hfirst : Regex.first repoRe path = some m) :
    ∃ host stem suffix tail, Divided path (Mode.ofGroup (m.group 1)) host stem suffix tail ∧
      m.group 2 = some host ∧ m.group 3 = some (stem ++ ascii ".git") ∧ (m.group 4).getD [] = suffix := by
  obtain ⟨u, hu, v₁, hfirst₁, rfl⟩ := Regex.mem_first_seq hfirst
  obtain ⟨rest, rfl, rfl⟩ := Regex.mem_literal.1 hu
  obtain ⟨mode, hmode, v₂, hfirst₂, rfl⟩ := Regex.mem_first_seq hfirst₁
  obtain ⟨hsegment, hgroups⟩ := mem_modeRe hmode
  obtain ⟨hostWay, hhost, v₃, hfirst₃, rfl⟩ := Regex.mem_first_seq hfirst₂
  obtain ⟨_, hplus, rfl⟩ := Regex.mem_group.1 hhost
  obtain ⟨host, _, hmodeRest, hne, hslash, rfl⟩ := Regex.mem_plus.1 hplus
  obtain ⟨u, hu, v₄, hfirst₄, rfl⟩ := Regex.mem_first_seq hfirst₃
  obtain ⟨_, hhostRest, rfl⟩ := Regex.mem_literal.1 hu
  have hascending : Regex.Ascending gitRe := ((Regex.ascending_plus notNewline).before_literal (ascii ".git")).group 3
  obtain ⟨repo, v₅, hrepo, hfirst₅, rfl, hshortest⟩ := hascending.shortest hfirst₄
  obtain ⟨stem, _, hrepoRest, hstem, hline, rfl⟩ := mem_gitRe.1 hrepo
  obtain ⟨suffix, tail, hsuffix, hending, hgroup, hothers⟩ := mem_suffixRe (Regex.mem_of_first hfirst₅)
  dsimp only at hsegment hmodeRest hhostRest hrepoRest hsuffix
  subst hsuffix hrepoRest hhostRest
  rw [hmodeRest] at hsegment
  have hrepoLine : 0x0A ∉ stem ++ ascii ".git" := by
    rw [mem_append, not_or]
    exact ⟨hline, by decide⟩
  simp only [Regex.Way.group_andThen]
  refine ⟨host, stem, suffix, tail, ?_, ?_, ?_, ?_⟩
  · rw [hothers 1 (by decide)]
    have hmodeGroup : Option.or none (Option.or (mode.group 1) none) = mode.group 1 := or_none
    refine ⟨?_, hne, ?_, hstem, hline, hending, ?_⟩
    · show ascii "/" ++ rest = ascii "/" ++ (Mode.ofGroup (Option.or none (Option.or (mode.group 1) none))).segment ++
        host ++ ascii "/" ++ (stem ++ ascii ".git") ++ suffix ++ tail
      rw [hmodeGroup, hsegment]
      simp only [append_assoc]
    · intro hmem
      have hother := hslash slash hmem
      rw [bne_self_eq_false] at hother
      cases hother
    · -- a shorter repository would have been tried before, and what follows it matches
      intro front back hfront heq
      have hfrontLine : 0x0A ∉ front ∧ 0x0A ∉ slash :: back := by
        rw [heq, mem_append, mem_append, not_or, not_or] at hrepoLine
        exact ⟨hrepoLine.1.1, hrepoLine.2⟩
      have hlonger : Ending (slash :: back ++ suffix) tail := by
        refine ⟨.inr rfl, ?_, hending.tail⟩
        rw [mem_append, not_or]
        exact ⟨hfrontLine.2, hending.line⟩
      have hle := hshortest ⟨front ++ ascii ".git", slash :: back ++ suffix ++ tail, [(3, front ++ ascii ".git")]⟩
        (mem_gitRe.2 ⟨front, _, by rw [heq]; simp only [append_assoc], hfront, hfrontLine.1, rfl⟩) hlonger.matches
      dsimp only at hle
      rw [heq, length_append, length_cons] at hle
      omega
  · rw [hgroups 2 (by decide)]
    rfl
  · rw [hgroups 3 (by decide)]
    rfl
  · rw [hgroups 4 (by decide)]
    exact hgroup

def isHostByte (b : UInt8) : Bool := isAlnum b || b == 0x2E || b == 0x2D || b == 0x3A || b == 0x0A

theorem mem_hostRe {host : Bytes} (hw : w ∈ Regex.ways hostRe host) :
    (∃ b rest, host = b :: rest ∧ isAlnum b = true) ∧ ∀ b ∈ host, isHostByte b = true := by
  obtain ⟨u, hu, v, hv, rfl⟩ := Regex.mem_seq.1 hw
  obtain ⟨b, rest, rfl, hb, rfl⟩ := Regex.mem_byte.1 hu
  obtain ⟨x, hx, y, hy, rfl⟩ := Regex.mem_seq.1 hv
  obtain ⟨name, afterName, hrest, hname, rfl⟩ := Regex.mem_star.1 hx
  obtain ⟨port, hport, z, hz, rfl⟩ := Regex.mem_seq.1 hy
  obtain ⟨htail, rfl⟩ := Regex.mem_atEnd.1 hz
  dsimp only at hrest
  subst hrest
  have hdigits : ∃ digits, afterName = digits ++ port.rest ∧ ∀ b ∈ digits, isHostByte b = true := by
    rcases Regex.mem_alt.1 hport with hgiven | hnone
    · obtain ⟨colon, hcolon, number, hnumber, rfl⟩ := Regex.mem_seq.1 hgiven
      obtain ⟨afterColon, rfl, rfl⟩ := Regex.mem_literal.1 hcolon
      obtain ⟨hsplit, hall⟩ := Regex.mem_upTo hnumber
      dsimp only at hsplit
      refine ⟨ascii ":" ++ number.piece, ?_, ?_⟩
      · rw [hsplit, append_assoc]
        rfl
      · intro b hb
        rcases mem_append.1 hb with hcolon | hdigit
        · obtain rfl := mem_singleton.1 hcolon
          rfl
        · rw [isHostByte, isAlnum, hall b hdigit, Bool.or_true]
          rfl
    · obtain rfl := Regex.mem_empty.1 hnone
      exact ⟨[], rfl, fun _ hb => absurd hb not_mem_nil⟩
  obtain ⟨digits, rfl, hall⟩ := hdigits
  refine ⟨⟨b, _, rfl, hb⟩, ?_⟩
  intro c hc
  rcases mem_cons.1 hc with rfl | hmem
  · rw [isHostByte, hb]
    rfl
  · rcases mem_append.1 hmem with hmem | hmem
    · rw [isHostByte, hname c hmem]
      rfl
    · rcases mem_append.1 hmem with hmem | hmem
      · exact hall c hmem
      · rcases htail with hnil | hline
        · rw [hnil] at hmem
          cases hmem
        · rw [hline] at hmem
          obtain rfl := mem_singleton.1 hmem
          rfl

/-! ### What `safe_repo_parts` accepts -/

theorem trim_git (stem : Bytes) :
    trim (stem ++ ascii ".git") (ascii "/") = stem.dropWhile (fun b => b == slash) ++ ascii ".git" := by
  have hclass : (fun b => (ascii "/").contains b) = fun b => b == slash := by
    funext b
    rw [show ascii "/" = [slash] from rfl, contains_cons, contains_nil, Bool.or_false]
  have hleft : trimLeft (stem ++ ascii ".git") (ascii "/") = stem.dropWhile (fun b => b == slash) ++ ascii ".git" := by
    rw [trimLeft, hclass, dropWhile_append]
    split_ifs with hempty
    · rw [List.isEmpty_iff.1 hempty]
      rfl
    · rfl
  have hgit : ∀ s : Bytes, s ++ ascii ".git" = s ++ ascii ".gi" ++ [0x74] := by
    intro s
    rw [append_assoc]
    rfl
  rw [trim, hleft, hgit, trimRight, rdropWhile_concat_neg]
  decide

structure Accepted (host repo : Bytes) : Prop where
  alnum : ∃ b rest, host = b :: rest ∧ isAlnum b = true
  bytes : ∀ b ∈ host, isHostByte b = true
  parts : ∀ part ∈ split slash repo, plain part = true
  git : ∃ stem, repo = stem ++ ascii ".git"

theorem safeRepoParts_eq {path : Bytes} {parts : RepoParts} (hparts : safeRepoParts path = .ok (some parts)) :
    ∃ raw stem tail, Divided path parts.mode raw stem parts.suffix tail ∧ parts.host = raw.map lower ∧
      parts.repo = stem.dropWhile (fun b => b == slash) ++ ascii ".git" ∧ Accepted parts.host parts.repo := by
  rw [safeRepoParts] at hparts
  split at hparts
  · cases hparts
  · rename_i m hfirst
    obtain ⟨raw, stem, suffix, tail, hdivided, hhost, hrepo, hsuffix⟩ := first_repoRe hfirst
    rw [hhost, hrepo, hsuffix, getD_some, getD_some, trim_git] at hparts
    dsimp only at hparts
    split_ifs at hparts with hmatch hpart
    · split at hparts
      · cases hparts
      · cases hparts
    split at hparts
    · cases hparts
    · obtain rfl := Option.some.inj (Except.ok.inj hparts)
      rw [not_or, isNone_iff_eq_none] at hmatch
      obtain ⟨w, hw⟩ := ne_none_iff_exists'.1 hmatch.1
      obtain ⟨halnum, hbytes⟩ := mem_hostRe (Regex.mem_of_first hw)
      refine ⟨raw, stem, tail, hdivided, rfl, rfl, halnum, hbytes, ?_, _, rfl⟩
      intro part hmem
      rw [List.any_eq_true, not_exists] at hpart
      have hnot := not_and.1 (hpart part) hmem
      rw [Bool.or_eq_true, Bool.or_eq_true, not_or, not_or, List.isEmpty_iff, beq_iff_eq, beq_iff_eq] at hnot
      exact plain_iff.2 ⟨⟨hnot.1.1, hnot.1.2, sep_not_mem_of_mem_split hmem⟩, hnot.2⟩

/-! ### Where the paths lie -/

def place (host repo : Bytes) : Place := host :: split slash repo

def extended (p : Place) (ext : Bytes) : Place := p.dropLast ++ [p.getLast?.getD [] ++ ext]

section Accepted

variable {host repo : Bytes}

section

variable (haccepted : Accepted host repo)

include haccepted

theorem Accepted.host_slash : slash ∉ host :=
  fun hmem => absurd (haccepted.bytes slash hmem) (by decide)

theorem Accepted.host_ne {rest : Bytes} : host ≠ 0x2E :: rest := by
  obtain ⟨b, tail, rfl, hb⟩ := haccepted.alnum
  rintro heq
  obtain ⟨rfl, _⟩ := cons.inj heq
  cases hb

theorem Accepted.host_plain : plain host = true := by
  obtain ⟨b, rest, hcons, _⟩ := haccepted.alnum
  refine plain_iff.2 ⟨⟨?_, haccepted.host_ne, haccepted.host_slash⟩, haccepted.host_ne⟩
  rw [hcons]
  exact cons_ne_nil _ _

end

section

variable (hparts : ∀ part ∈ split slash s, plain part = true)

include hparts

theorem names_self : PurePath.names s = split slash s := by
  rw [PurePath.names, filter_eq_self]
  intro part hpart
  obtain ⟨hpart, _⟩ := plain_iff.1 (hparts part hpart)
  rw [Bool.and_eq_true, Bool.not_eq_true', isEmpty_eq_false_iff, bne_iff_ne]
  exact ⟨hpart.ne_nil, hpart.ne_dot⟩

theorem rooted_of_plain : rooted s = false := by
  cases s with
  | nil => rfl
  | cons b s =>
    rw [rooted, head?_cons, beq_eq_false_iff_ne]
    intro hb
    obtain rfl := Option.some.inj hb
    have hnil : [] ∈ split slash (slash :: s) := by
      rw [split, beq_self_eq_true, if_pos rfl]
      exact mem_cons_self
    cases hparts [] hnil

theorem join_plain (p : PurePath) : p.join s = ⟨p.root, p.parts ++ split slash s⟩ := by
  rw [PurePath.join, rooted_of_plain hparts, names_self hparts]
  rfl

end

theorem join_name {name : Bytes} (hname : plain name = true) (p : PurePath) :
    p.join name = ⟨p.root, p.parts ++ [name]⟩ := by
  have hsplit := split_self (plain_iff.1 hname).1.no_slash
  have hjoin := join_plain (s := name) (by rw [hsplit]; exact forall_mem_singleton.2 hname) p
  rwa [hsplit] at hjoin

theorem plain_of_long {name : Bytes} (hslash : slash ∉ name) (hlong : 3 ≤ name.length) : plain name = true := by
  refine plain_iff.2 ⟨⟨?_, ?_, hslash⟩, ?_⟩
  all_goals
    rintro rfl
    revert hlong
    decide

theorem slash_not_mem_underscored (s : Bytes) : slash ∉ underscored s := by
  intro hmem
  obtain ⟨b, _, hb⟩ := mem_flatMap.1 hmem
  split_ifs at hb with heq
  · revert hb
    decide
  · exact heq (mem_singleton.1 hb).symm

theorem plain_lock (s : Bytes) : plain (underscored s ++ ascii ".lock") = true := by
  refine plain_of_long ?_ ?_
  · rw [mem_append, not_or]
    exact ⟨slash_not_mem_underscored s, by decide⟩
  · have hfive : (ascii ".lock").length = 5 := rfl
    rw [length_append, hfive]
    omega

theorem extended_place (host repo : Bytes) (hext : slash ∉ ext) :
    extended (place host repo) ext = host :: split slash (repo ++ ext) := by
  rw [extended, place, split_append_plain hext]
  cases hsplit : split slash repo with
  | nil => exact absurd hsplit (split_ne_nil slash repo)
  | cons part parts => rw [dropLast_cons_cons, getLast?_cons_cons, cons_append]

theorem lockKey_place (hslash : slash ∉ host) : underscored (host ++ ascii "/" ++ repo) = lockKey (place host repo) := by
  rw [underscored, ← intercalate_split, show host ++ ascii "/" ++ repo = host ++ slash :: repo by rw [append_assoc]; rfl,
    split_append, split_self hslash]
  rfl

theorem Accepted.parts_append (haccepted : Accepted host repo) (hext : slash ∉ ext) :
    ∀ part ∈ split slash (repo ++ ext), plain part = true := by
  obtain ⟨stem, hstem⟩ := haccepted.git
  have hparts := haccepted.parts
  have hgit : slash ∉ ascii ".git" := by decide
  have hall : slash ∉ ascii ".git" ++ ext := by
    rw [mem_append, not_or]
    exact ⟨hgit, hext⟩
  rw [hstem, split_append_plain hgit] at hparts
  rw [hstem, append_assoc, split_append_plain hall]
  intro part hpart
  rcases mem_append.1 hpart with hfront | hlast
  · exact hparts part (mem_append_left _ hfront)
  · obtain rfl := mem_singleton.1 hlast
    have hplain := hparts _ (mem_append_right _ mem_cons_self)
    have hslash := (plain_iff.1 hplain).1.no_slash
    have hfour : (ascii ".git").length = 4 := rfl
    rw [mem_append, not_or] at hslash
    refine plain_of_long ?_ ?_
    · rw [mem_append, not_or]
      exact ⟨hslash.1, hall⟩
    · rw [length_append, length_append, hfour]
      omega

theorem Accepted.repoPaths_eq (haccepted : Accepted host repo) (root : PurePath) : repoPaths root host repo =
      ⟨⟨root.root, root.parts ++ place host repo⟩,
        ⟨root.root, root.parts ++ extended (place host repo) (ascii ".last_fetch")⟩,
        ⟨root.root, root.parts ++ [ascii ".locks", lockKey (place host repo) ++ ascii ".lock"]⟩⟩ := by
  have hext : slash ∉ ascii ".last_fetch" := by decide
  rw [repoPaths, join_name haccepted.host_plain, join_plain haccepted.parts,
    join_plain (haccepted.parts_append hext), join_name (show plain (ascii ".locks") = true by decide), join_name (plain_lock _),
    extended_place host repo hext, lockKey_place haccepted.host_slash]
  simp only [append_assoc, singleton_append, place]

theorem suffix_of_name (p : PurePath) : p.name.take (p.name.length - p.suffix.length) ++ p.suffix = p.name := by
  rw [PurePath.suffix]
  split_ifs with hdot
  · have hsplit := rdropWhile_append_rtakeWhile (p := fun b => b != 0x2E) (l := p.name)
    have hne : p.name.rdropWhile (fun b => b != 0x2E) ≠ [] := by
      intro hnil
      rw [hnil, nil_append] at hsplit
      rw [hsplit] at hdot
      omega
    have hlast : (p.name.rdropWhile fun b => b != 0x2E).getLast hne = 0x2E := by
      have hnot := rdropWhile_last_not (fun b => b != 0x2E) p.name hne
      rwa [bne_iff_ne, not_not] at hnot
    have hfront := dropLast_append_getLast hne
    rw [hlast] at hfront
    rw [← hfront, append_assoc, singleton_append] at hsplit
    generalize (p.name.rdropWhile fun b => b != 0x2E).dropLast = front at hsplit
    generalize p.name.rtakeWhile (fun b => b != 0x2E) = ending at hsplit ⊢
    rw [← hsplit, length_append, Nat.add_sub_cancel, take_left]
  · rw [length_nil, Nat.sub_zero, take_length, append_nil]

theorem suffix_head (p : PurePath) : p.suffix = [] ∨ p.suffix.head? = some 0x2E := by
  rw [PurePath.suffix]
  split_ifs
  · exact .inr rfl
  · exact .inl rfl

theorem withSuffix_append {p : PurePath} (hname : plain p.name = true) (hslash : slash ∉ ext)
    (hdot : ext.head? = some 0x2E) (hlong : 2 ≤ ext.length) :
    p.withSuffix (p.suffix ++ ext) = some ⟨p.root, extended p.parts ext⟩ := by
  obtain ⟨hname, _⟩ := plain_iff.1 hname
  have hsuffix : p.suffix ⊆ p.name := by
    have hsplit := suffix_of_name p
    exact fun b hb => hsplit ▸ mem_append_right _ hb
  rw [PurePath.withSuffix, if_neg, ← append_assoc, suffix_of_name]
  · rfl
  · rw [not_or, not_or, not_or, not_and, not_not, mem_append, not_or]
    refine ⟨⟨fun hmem => hname.no_slash (hsuffix hmem), hslash⟩, ?_, ?_, hname.ne_nil⟩
    · intro _
      rw [head?_append, hdot]
      rcases suffix_head p with hnil | hhead
      · rw [hnil]
        rfl
      · rw [hhead]
        rfl
    · intro heq
      have hlength := congrArg length heq
      have hone : dot.length = 1 := rfl
      rw [length_append, hone] at hlength
      omega

theorem extended_append (front : List Bytes) {p : Place} (hp : p ≠ []) (ext : Bytes) :
    extended (front ++ p) ext = front ++ extended p ext := by
  rw [extended, extended, dropLast_append_of_ne_nil hp, getLast?_append_of_ne_nil _ hp, append_assoc]

theorem tmpPath_eq (pid : Nat) (p : Place) : tmpPath pid p = extended p (ascii ".tmp." ++ decimal pid) := by
  rw [tmpPath, extended, append_assoc]

theorem Accepted.tmpClonePath_eq (haccepted : Accepted host repo) (root : PurePath) (pid : Nat) :
    tmpClonePath (repoPaths root host repo).repoPath pid = some ⟨root.root, root.parts ++ tmpPath pid (place host repo)⟩ := by
  have hne : place host repo ≠ [] := cons_ne_nil _ _
  have hname : plain (PurePath.name ⟨root.root, root.parts ++ place host repo⟩) = true := by
    have hlast := getLast?_eq_some_getLast (split_ne_nil slash repo)
    have hplace : (place host repo).getLast? = (split slash repo).getLast? := by
      cases hsplit : split slash repo with
      | nil => exact absurd hsplit (split_ne_nil slash repo)
      | cons part parts => rw [place, hsplit, getLast?_cons_cons]
    rw [PurePath.name, getLast?_append_of_ne_nil _ hne, hplace, hlast, getD_some]
    exact haccepted.parts _ (getLast_mem _)
  have hslash : slash ∉ ascii ".tmp." ++ decimal pid := by
    rw [mem_append, not_or]
    exact ⟨by decide, fun hmem => absurd (mem_decimal hmem).1 (by decide)⟩
  rw [haccepted.repoPaths_eq, tmpClonePath, append_assoc, withSuffix_append hname hslash rfl (by simp [ascii]),
    extended_append _ hne, tmpPath_eq]

end Accepted

def Below (p q : PurePath) : Prop :=
  ∃ names, names ≠ [] ∧ (∀ name ∈ names, plain name = true) ∧ q = ⟨p.root, p.parts ++ names⟩

theorem Accepted.below {host repo : Bytes} (haccepted : Accepted host repo) (root : PurePath)
    (hext : slash ∉ ext) : Below (root.join host) ⟨root.root, root.parts ++ extended (place host repo) ext⟩ := by
  refine ⟨split slash (repo ++ ext), split_ne_nil _ _, haccepted.parts_append hext, ?_⟩
  rw [join_name haccepted.host_plain, extended_place host repo hext]
  simp only [append_assoc, singleton_append]

/-- The paths of an accepted repository stay below its host. -/
theorem safe_repo_parts_confined (root : PurePath) (pid : Nat) {path : Bytes} {parts : RepoParts}
    (hparts : safeRepoParts path = .ok (some parts)) :
    plain parts.host = true ∧ parts.host ≠ ascii ".locks" ∧
    root.join parts.host = ⟨root.root, root.parts ++ [parts.host]⟩ ∧
    parts.repo ≠ [] ∧ rooted parts.repo = false ∧
    (∀ part ∈ split slash parts.repo, part ≠ [] ∧ part ≠ dot ∧ part ≠ dotdot) ∧
    Below (root.join parts.host) (repoPaths root parts.host parts.repo).repoPath ∧
    Below (root.join parts.host) (repoPaths root parts.host parts.repo).stampPath ∧
    (∃ tmp, tmpClonePath (repoPaths root parts.host parts.repo).repoPath pid = some tmp ∧
      Below (root.join parts.host) tmp) ∧
    (∃ name, plain name = true ∧
      (repoPaths root parts.host parts.repo).lockPath = ⟨root.root, root.parts ++ [ascii ".locks", name]⟩) ∧
    ∃ raw slashes tail, path = ascii "/" ++ parts.mode.segment ++ raw ++ ascii "/" ++ slashes ++ parts.repo ++
        parts.suffix ++ tail ∧
      raw.map lower = parts.host ∧ (∀ b ∈ slashes, b = slash) ∧ (tail = [] ∨ tail = ascii "\n") ∧
      (0x0A ∉ path → tail = []) := by
  obtain ⟨raw, stem, tail, hdivided, hhost, hrepo, haccepted⟩ := safeRepoParts_eq hparts
  have hplace : place parts.host parts.repo = extended (place parts.host parts.repo) [] := by
    rw [extended_place _ _ List.not_mem_nil, List.append_nil, place]
  have htmp : slash ∉ ascii ".tmp." ++ decimal pid := by
    rw [List.mem_append, not_or]
    exact ⟨by decide, fun hmem => absurd (mem_decimal hmem).1 (by decide)⟩
  refine ⟨haccepted.host_plain, haccepted.host_ne, join_name haccepted.host_plain root, ?_,
    rooted_of_plain haccepted.parts, ?_, ?_, ?_, ?_, ?_, ?_⟩
  · rw [hrepo]
    exact List.append_ne_nil_of_right_ne_nil _ (by decide)
  · intro part hpart
    obtain ⟨hname, hdotdot⟩ := plain_iff.1 (haccepted.parts part hpart)
    exact ⟨hname.ne_nil, hname.ne_dot, hdotdot⟩
  · rw [haccepted.repoPaths_eq, hplace]
    exact haccepted.below root List.not_mem_nil
  · rw [haccepted.repoPaths_eq]
    exact haccepted.below root (by decide)
  · refine ⟨_, haccepted.tmpClonePath_eq root pid, ?_⟩
    rw [tmpPath_eq]
    exact haccepted.below root htmp
  · rw [haccepted.repoPaths_eq]
    refine ⟨_, ?_, rfl⟩
    rw [← lockKey_place haccepted.host_slash]
    exact plain_lock _
  · refine ⟨raw, stem.takeWhile (fun b => b == slash), tail, ?_, hhost.symm, ?_, hdivided.ending.tail, ?_⟩
    · have hstem := List.takeWhile_append_dropWhile (p := fun b => b == slash) (l := stem)
      rw [hdivided.path, hrepo]
      nth_rewrite 1 [← hstem]
      simp only [List.append_assoc]
    · intro b hb
      have hslash := List.mem_takeWhile_imp hb
      exact beq_iff_eq.1 hslash
    · intro hline
      rcases hdivided.ending.tail with hnil | hnewline
      · exact hnil
      · rw [hdivided.path, hnewline] at hline
        exact absurd (List.mem_append_right _ List.mem_cons_self) hline

theorem safe_repo_parts_confined_port :
    safeRepoParts (ascii "/fresh/GitHub.com:443//a/b.git/info/refs") =
      .ok (some ⟨.fresh, ascii "github.com:443", ascii "a/b.git", ascii "/info/refs"⟩) ∧
    Below ⟨true, [ascii "srv", ascii "github.com:443"]⟩
      (repoPaths ⟨true, [ascii "srv"]⟩ (ascii "github.com:443") (ascii "a/b.git")).stampPath := by
  have hparts : safeRepoParts (ascii "/fresh/GitHub.com:443//a/b.git/info/refs") =
      .ok (some ⟨.fresh, ascii "github.com:443", ascii "a/b.git", ascii "/info/refs"⟩) := by decide +kernel
  exact ⟨hparts, (safe_repo_parts_confined ⟨true, [ascii "srv"]⟩ 7 hparts).2.2.2.2.2.2.2.1⟩

end BuildkitService.GitCache
