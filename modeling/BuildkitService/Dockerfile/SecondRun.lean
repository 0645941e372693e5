import Mathlib.Data.List.Forall2
import BuildkitService.Dockerfile.Opacity
import BuildkitService.Dockerfile.Rewritten

/-!
# The second run of the preprocessor

The second run reads what the first one emitted.
-/

namespace BuildkitService.Dockerfile

open Strings List Option

/-! ### Lines that are read elsewhere -/

def Moved (lines : List Bytes) (idx : Nat) (lines' : List Bytes) (idx' : Nat) (chunk : List Bytes) : Prop :=
  ∃ more future, lines.drop idx = chunk ++ more ∧ lines'.drop idx' = chunk ++ future ∧ (more = [] → future = [])

variable {more chunk : List Bytes} {plain : Bytes} {start start' idx : Nat}

theorem joinHeader_moved (escape : UInt8) {future : List Bytes} (hend : more = [] → future = [])
    (chunk : List Bytes) {k : Nat} {header : Bytes} {last : Nat} (hne : chunk = [] → 0 < k)
    (hjoin : joinHeader escape start (chunk ++ more) (start + k) header = (plain, last))
    (hlast : last < start + k + chunk.length) :
    ∃ j, last = start + j ∧ joinHeader escape start' (chunk ++ future) (start' + k) header = (plain, start' + j) := by
  induction chunk generalizing k header with
  | nil =>
    have hk := hne rfl
    cases more with
    | nil =>
      rw [hend rfl]
      obtain ⟨rfl, rfl⟩ := Prod.mk.inj hjoin
      refine ⟨k - 1, by omega, Prod.ext rfl ?_⟩
      show start' + k - 1 = start' + (k - 1)
      omega
    | cons raw rest =>
      have hge := joinHeader_ge escape start raw rest (start + k) header
      rw [nil_append] at hjoin
      rw [hjoin] at hge
      rw [length_nil] at hlast
      exact absurd hlast (by dsimp only at hge; omega)
  | cons raw chunk ih =>
    have hfirst : (start' + k = start') = (start + k = start) := propext (by omega)
    have hnext : ∀ header', joinHeader escape start (chunk ++ more) (start + k + 1) header' = (plain, last) →
        ∃ j, last = start + j ∧
          joinHeader escape start' (chunk ++ future) (start' + k + 1) header' = (plain, start' + j) := by
      intro header' hrest
      refine ih (k := k + 1) (fun _ => Nat.succ_pos k) hrest ?_
      rw [length_cons] at hlast
      omega
    rw [cons_append, joinHeader] at hjoin
    rw [cons_append, joinHeader]
    simp only [hfirst]
    dsimp only at hjoin
    split_ifs at hjoin ⊢
    · obtain ⟨rfl, rfl⟩ := Prod.mk.inj hjoin
      exact ⟨k, rfl, rfl⟩
    · exact hnext _ hjoin
    · exact hnext _ hjoin
    · obtain ⟨rfl, rfl⟩ := Prod.mk.inj hjoin
      exact ⟨k, rfl, rfl⟩

theorem instructionHeader_moved {lines lines' : List Bytes} {idx' last : Nat} {escape : UInt8}
    (hmoved : Moved lines idx lines' idx' chunk) (hne : chunk ≠ [])
    (hheader : instructionHeader lines idx escape = (plain, last)) (hlast : last < idx + chunk.length) :
    ∃ j, last = idx + j ∧ instructionHeader lines' idx' escape = (plain, idx' + j) := by
  obtain ⟨more, future, hdrop, hdrop', hend⟩ := hmoved
  rw [instructionHeader, hdrop] at hheader
  rw [instructionHeader, hdrop']
  exact joinHeader_moved escape hend chunk (k := 0) (fun hnil => absurd hnil hne) hheader hlast

variable {fe : Frontend} {stop : Nat}

theorem readHeader_moved {lines lines' : List Bytes} {headerEnd headerEnd' : Nat} {escape : UInt8}
    {header : Header} (hheader : instructionHeader lines start escape = (plain, headerEnd))
    (hheader' : instructionHeader lines' start' escape = (plain, headerEnd'))
    (hread : readHeader fe lines start escape = .ok header) :
    readHeader fe lines' start' escape = .ok { header with headerEnd := headerEnd' } := by
  rcases heffective : effectiveInstruction plain with ⟨instruction, command, onbuild⟩
  rw [readHeader_eq fe hheader heffective] at hread
  rw [readHeader_eq fe hheader' heffective]
  split_ifs at hread ⊢
  · rw [← Except.ok.inj hread]
  · simp only [readCommand] at hread ⊢
    generalize (if instruction = ascii "RUN" then instructionHeredocs fe command else dockerfileHeredocs fe command) =
      found at hread ⊢
    split_ifs at hread ⊢
    cases hparse : parseLegacyCatHeredoc (normalize plain instruction command) (start + 1) with
    | error e =>
      rw [hparse] at hread
      cases hread
    | ok spec =>
      rw [hparse] at hread
      rw [parseLegacyCatHeredoc_line hparse]
      dsimp only at hread ⊢
      split at hread
      · cases hread
      · rw [← Except.ok.inj hread]
      · split_ifs at hread ⊢
        rw [← Except.ok.inj hread]

/-! ### The heredocs of a header -/

def Span.text (lines : List Bytes) (span : Span) : Heredoc × List Bytes :=
  (span.doc, slice lines span.bodyStart (span.stop + 1))

theorem findHeredocEnd_moved {lines lines' future : List Bytes} {delimiter : Bytes} {stripTabs : Bool}
    (hdrop : lines.drop start = chunk ++ more) (hdrop' : lines'.drop start' = chunk ++ future)
    (hfind : findHeredocEnd lines start delimiter stripTabs = some stop) (hstop : stop < start + chunk.length) :
    ∃ k < chunk.length, stop = start + k ∧ findHeredocEnd lines' start' delimiter stripTabs = some (start' + k) := by
  rw [findHeredocEnd, hdrop, findIdx?_append] at hfind
  obtain ⟨k, hk, rfl⟩ := map_eq_some_iff.1 hfind
  cases hchunk : chunk.findIdx? (isTerminator delimiter stripTabs) with
  | none =>
    rw [hchunk, none_or] at hk
    obtain ⟨later, _, rfl⟩ := map_eq_some_iff.1 hk
    omega
  | some found =>
    rw [hchunk, some_or] at hk
    obtain rfl := Option.some.inj hk
    refine ⟨found, by omega, Nat.add_comm _ _, ?_⟩
    rw [findHeredocEnd, hdrop', findIdx?_append, hchunk, some_or, map_some, Nat.add_comm]

theorem slice_of_drop {lines : List Bytes} {k : Nat} (hdrop : lines.drop start = chunk ++ more)
    (hk : k ≤ chunk.length) : slice lines start (start + k) = chunk.take k := by
  rw [slice, drop_take, hdrop, Nat.add_sub_cancel_left, take_append_of_le_length hk]

theorem heredocSpans_moved {lines lines' future : List Bytes} (docs : List Heredoc) {idx' : Nat}
    {spans : List Span} (hspans : heredocSpans lines idx docs = (spans, none)) (hidx : idx < lines.length)
    (hdrop : lines.drop (idx + 1) = chunk ++ more) (hdrop' : lines'.drop (idx' + 1) = chunk ++ future)
    (hlast : lastLine idx spans ≤ idx + chunk.length) :
    ∃ spans' j, heredocSpans lines' idx' docs = (spans', none) ∧ lastLine idx spans = idx + j ∧
      lastLine idx' spans' = idx' + j ∧ spans'.map (Span.text lines') = spans.map (Span.text lines) := by
  induction docs generalizing idx idx' chunk spans with
  | nil =>
    obtain rfl := (Prod.mk.inj hspans).1
    exact ⟨[], 0, rfl, rfl, rfl, rfl⟩
  | cons doc docs ih =>
    rw [heredocSpans] at hspans
    cases hfind : findHeredocEnd lines (idx + 1) doc.name doc.chomp with
    | none =>
      rw [hfind] at hspans
      cases (Prod.mk.inj hspans).2
    | some stop =>
      rw [hfind] at hspans
      rcases hrest : heredocSpans lines stop docs with ⟨later, missing⟩
      simp only [hrest] at hspans
      obtain ⟨rfl, rfl⟩ := Prod.mk.inj hspans
      have hbounds := findHeredocEnd_bounds hfind
      have hbehind := (heredocSpans_bounds lines docs hbounds.2).1
      rw [hrest] at hbehind
      rw [lastLine_cons] at hlast ⊢
      obtain ⟨k, hk, rfl, hfind'⟩ := findHeredocEnd_moved hdrop hdrop' hfind (by dsimp only at hbehind hlast; omega)
      have hpass : ∀ (file rest : List Bytes) (n : Nat), file.drop (n + 1) = chunk ++ rest →
          file.drop (n + 1 + k + 1) = chunk.drop (k + 1) ++ rest := by
        intro file rest n hfile
        rw [Nat.add_assoc (n + 1), ← drop_drop, hfile, drop_append_of_le_length hk]
      obtain ⟨later', j, hspans', hlast₁, hlast₂, htexts⟩ := ih hrest hbounds.2 (hpass _ _ _ hdrop)
        (hpass _ _ _ hdrop') (by rw [length_drop]; dsimp only at hlast; omega)
      refine ⟨⟨doc, idx' + 1, idx' + 1 + k⟩ :: later', 1 + k + j, ?_, ?_, ?_, ?_⟩
      · rw [heredocSpans, hfind']
        simp only [hspans']
      · dsimp only
        omega
      · rw [lastLine_cons]
        dsimp only
        omega
      · rw [map_cons, map_cons, htexts]
        congr 1
        exact Prod.ext rfl ((slice_of_drop hdrop' hk).trans (slice_of_drop hdrop hk).symm)

/-! ### What a run makes of each instruction -/

structure Opened where
  header : List Bytes
  rewrite : Option LegacyHeredocSpec
  heredocs : List (Heredoc × List Bytes)
  deriving DecidableEq, Repr

def Opened.lines (opened : Opened) : List Bytes := opened.header ++ opened.heredocs.flatMap Prod.snd

variable (fe) in
def instructionOpened (lines : List Bytes) (st : LoopState fe) : List Opened :=
  match directiveHeader fe lines st with
  | .error _ => []
  | .ok (_, _, header) =>
      [⟨slice lines st.idx (header.headerEnd + 1), header.rewrite,
        (openedSpans lines header.headerEnd header.docs).map (Span.text lines)⟩]

variable (fe) in
def opened (raw : Bytes) : List Opened :=
  let lines := splitDockerfileLines raw
  collect fe (instructionOpened fe lines) lines lines.length (initial fe)

structure Again (before after : Opened) : Prop where
  rewrite : after.rewrite = none
  heredocs : after.heredocs = before.heredocs
  header : match before.rewrite with
    | none => after.header = before.header
    | some spec => after.header = [copyHeader spec] ∧ ∃ doc text, before.heredocs = [(doc, text)]

structure Follows (st st' : LoopState fe) : Prop where
  idx : st'.idx = st.out.length
  changed : st'.changed = false
  escape : st'.escape = st.escape
  directives : st'.directives = st.directives

theorem advance_follows {lines lines' : List Bytes} {st st' : LoopState fe} {directives : fe.Directives}
    {escape : UInt8} {header : Header} {headerEnd' : Nat} {spans' : List Span} (hfollows : Follows st st')
    (hheader : directiveHeader fe lines st = .ok (directives, escape, header))
    (hline : fe.parseLine st.directives (trimSpace (lines'.getD st'.idx [])) =
      fe.parseLine st.directives (trimSpace (lines.getD st.idx [])))
    (hread' : readHeader fe lines' st'.idx escape = .ok ⟨headerEnd', header.docs, none⟩)
    (hspans' : heredocSpans lines' headerEnd' header.docs = (spans', none)) :
    (∃ out, advance fe lines' st' = .ok ⟨lastLine headerEnd' spans' + 1, out, false, escape, directives⟩) ∧
      instructionOpened fe lines' st' =
        [⟨slice lines' st'.idx (headerEnd' + 1), none, spans'.map (Span.text lines')⟩] := by
  obtain ⟨⟨directive, hparse, hescape⟩, _⟩ := directiveHeader_ok fe hheader
  have hheader' : directiveHeader fe lines' st' = .ok (directives, escape, ⟨headerEnd', header.docs, none⟩) := by
    rw [directiveHeader, hfollows.directives, hline, hparse]
    dsimp only
    rw [hfollows.escape, ← hescape, hread']
  constructor
  · refine ⟨st'.out ++ emit lines' st'.idx (lastLine headerEnd' spans') ⟨headerEnd', header.docs, none⟩, ?_⟩
    rw [advance, hheader']
    simp only [hspans', hfollows.changed]
    rfl
  · rw [instructionOpened, hheader']
    simp only [openedSpans_of_closed lines' header.docs hspans']

theorem slice_count (lines : List Bytes) (hstop : stop ≤ lines.length) :
    (slice lines start stop).length = stop - start := by
  rw [slice, length_drop, length_take, Nat.min_eq_left hstop]

theorem drop_slice (lines : List Bytes) (hle : start ≤ stop) :
    lines.drop start = slice lines start stop ++ lines.drop stop := by
  conv_lhs => rw [← take_append_drop stop lines]
  rw [slice, drop_append, length_take]
  by_cases hstop : stop ≤ lines.length
  · rw [Nat.min_eq_left hstop, Nat.sub_eq_zero_of_le hle, drop_zero]
  · have hnil : lines.drop stop = [] := drop_eq_nil_of_le (by omega)
    rw [hnil, drop_nil]

theorem getD_of_drop {lines rest : List Bytes} {line : Bytes} (hdrop : lines.drop idx = line :: rest) :
    lines.getD idx [] = line := by
  rw [getD_eq_getElem?_getD, ← head?_drop, hdrop]
  rfl

section Iteration

variable {lines lines' future : List Bytes} {st st' next : LoopState fe} {directives : fe.Directives} {escape : UInt8}
  {header : Header} {spans : List Span} (hfollows : Follows st st') (hidx : st.idx < lines.length)
  (hheader : directiveHeader fe lines st = .ok (directives, escape, header))
  (hspans : heredocSpans lines header.headerEnd header.docs = (spans, none))
  (hlines : lines' = st.out ++ emit lines st.idx (lastLine header.headerEnd spans) header ++ future)

include hidx hheader hspans in
theorem iteration_bounds : st.idx ≤ header.headerEnd ∧ header.headerEnd ≤ lastLine header.headerEnd spans ∧
    lastLine header.headerEnd spans < lines.length := by
  have hbounds := instructionHeader_bounds escape hidx
  rw [← (readHeader_spec fe (directiveHeader_ok fe hheader).2).1] at hbounds
  have hlast := heredocSpans_bounds lines header.docs hbounds.2
  rw [hspans] at hlast
  exact ⟨hbounds.1, hlast.1, hlast.2.1⟩

include hfollows hidx hheader hspans hlines in
theorem follows_kept (hrewrite : header.rewrite = none)
    (hend : lastLine header.headerEnd spans + 1 = lines.length → future = []) :
    ∃ headerEnd' spans', readHeader fe lines' st'.idx escape = .ok ⟨headerEnd', header.docs, none⟩ ∧
      heredocSpans lines' headerEnd' header.docs = (spans', none) ∧
      lines'.getD st'.idx [] = lines.getD st.idx [] ∧
      slice lines' st'.idx (headerEnd' + 1) = slice lines st.idx (header.headerEnd + 1) ∧
      lastLine headerEnd' spans' + 1 = (st.out ++ emit lines st.idx (lastLine header.headerEnd spans) header).length ∧
      spans'.map (Span.text lines') = spans.map (Span.text lines) := by
  obtain ⟨hstart, hbehind, hstop⟩ := iteration_bounds hidx hheader hspans
  have hread := (directiveHeader_ok fe hheader).2
  have hemit : emit lines st.idx (lastLine header.headerEnd spans) header =
      slice lines st.idx (lastLine header.headerEnd spans + 1) := by
    rw [emit, hrewrite]
  rw [hemit] at hlines ⊢
  set chunk := slice lines st.idx (lastLine header.headerEnd spans + 1)
  have hcount : chunk.length = lastLine header.headerEnd spans + 1 - st.idx := slice_count lines hstop
  have hdrop : lines.drop st.idx = chunk ++ lines.drop (lastLine header.headerEnd spans + 1) :=
    drop_slice lines (by omega)
  have hdrop' : lines'.drop st'.idx = chunk ++ future := by
    rw [hlines, hfollows.idx, append_assoc, drop_left]
  have hmoved : Moved lines st.idx lines' st'.idx chunk := by
    refine ⟨_, _, hdrop, hdrop', fun hnil => hend ?_⟩
    rw [drop_eq_nil_iff] at hnil
    omega
  obtain ⟨line, rest, hfirst⟩ := exists_cons_of_length_pos (show 0 < chunk.length by omega)
  rcases hplain : instructionHeader lines st.idx escape with ⟨plain, last⟩
  have hlast : header.headerEnd = last := by rw [(readHeader_spec fe hread).1, hplain]
  obtain ⟨j, hj, hplain'⟩ := instructionHeader_moved hmoved (by rw [hfirst]; exact cons_ne_nil _ _) hplain
    (by omega)
  have hpass : ∀ (file more : List Bytes) (n : Nat), file.drop n = chunk ++ more →
      file.drop (n + j + 1) = chunk.drop (j + 1) ++ more := by
    intro file more n hfile
    rw [Nat.add_assoc, ← drop_drop, hfile, drop_append_of_le_length (by omega)]
  have hread' := readHeader_moved hplain hplain' hread
  rw [hrewrite] at hread'
  have hbehind' : lines.drop (header.headerEnd + 1) = chunk.drop (j + 1) ++ lines.drop (lastLine header.headerEnd spans + 1) := by
    rw [hlast, hj]
    rw [hlast, hj] at hdrop
    exact hpass _ _ _ hdrop
  obtain ⟨spans', k, hspans', hlast₁, hlast₂, htexts⟩ := heredocSpans_moved header.docs hspans (by omega)
    hbehind' (hpass _ _ _ hdrop') (by rw [length_drop]; omega)
  refine ⟨st'.idx + j, spans', hread', hspans', ?_, ?_, ?_, htexts⟩
  · rw [hfirst] at hdrop hdrop'
    rw [getD_of_drop hdrop, getD_of_drop hdrop']
  · rw [hlast, hj, Nat.add_assoc, Nat.add_assoc, slice_of_drop hdrop (by omega), slice_of_drop hdrop' (by omega)]
  · rw [length_append, hcount, hlast₂, hfollows.idx]
    omega

include hfollows hidx hheader hspans hlines in
theorem follows_rewritten (hfe : fe.Documented) (hescape : escape = 0x5C ∨ escape = 0x60) {spec : LegacyHeredocSpec}
    (hrewrite : header.rewrite = some spec) :
    ∃ spans', readHeader fe lines' st'.idx escape = .ok ⟨st'.idx, header.docs, none⟩ ∧
      heredocSpans lines' st'.idx header.docs = (spans', none) ∧ (∃ d : Delimiter, header.docs = [d.heredoc]) ∧
      fe.parseLine st.directives (trimSpace (lines'.getD st'.idx [])) =
        fe.parseLine st.directives (trimSpace (lines.getD st.idx [])) ∧
      slice lines' st'.idx (st'.idx + 1) = [copyHeader spec] ∧
      lastLine st'.idx spans' + 1 = (st.out ++ emit lines st.idx (lastLine header.headerEnd spans) header).length ∧
      spans'.map (Span.text lines') = spans.map (Span.text lines) := by
  obtain ⟨hstart, hbehind, hstop⟩ := iteration_bounds hidx hheader hspans
  have hread := (directiveHeader_ok fe hheader).2
  obtain ⟨d, hrewritten⟩ := readHeader_rewritten hfe hread hrewrite
  obtain ⟨command, _, hlegacy⟩ := hrewritten.line
  have hemit : emit lines st.idx (lastLine header.headerEnd spans) header =
      copyHeader spec :: slice lines (header.headerEnd + 1) (lastLine header.headerEnd spans + 1) := by
    rw [emit, hrewrite]
  rw [hemit] at hlines ⊢
  set chunk := slice lines (header.headerEnd + 1) (lastLine header.headerEnd spans + 1)
  have hcount : chunk.length = lastLine header.headerEnd spans + 1 - (header.headerEnd + 1) := slice_count lines hstop
  have hdrop : lines.drop (header.headerEnd + 1) = chunk ++ lines.drop (lastLine header.headerEnd spans + 1) :=
    drop_slice lines (by omega)
  have hdrop' : lines'.drop st'.idx = copyHeader spec :: (chunk ++ future) := by
    rw [hlines, hfollows.idx, append_assoc, drop_left, cons_append]
  have hnext : lines'.drop (st'.idx + 1) = chunk ++ future := by
    rw [← drop_drop, hdrop', drop_succ_cons, drop_zero]
  obtain ⟨spans', k, hspans', hlast₁, hlast₂, htexts⟩ := heredocSpans_moved header.docs hspans (by omega) hdrop hnext
    (by omega)
  have hread' := readHeader_copy hfe hlegacy.token hlegacy.indent hrewritten.target hescape hdrop'
  rw [← hrewritten.docs] at hread'
  refine ⟨spans', hread', hspans', ⟨d, hrewritten.docs⟩, ?_, ?_, ?_, htexts⟩
  · obtain ⟨r, _, hcopy⟩ := trimSpace_copy d hlegacy.indent (0x20 :: (spec.target ++ ascii "\n"))
    refine hfe.directives _ _ _ (hrewritten.not_comment hidx) ?_
    rw [getD_of_drop hdrop', copyHeader_eq hlegacy.token, hcopy]
    rfl
  · have hone : lines'.drop st'.idx = [copyHeader spec] ++ (chunk ++ future) := hdrop'
    exact slice_of_drop hone le_rfl
  · rw [length_append, length_cons, hcount, hlast₂, hfollows.idx]
    omega

end Iteration

theorem updateEscape_escape {escape : UInt8} (hescape : escape = 0x5C ∨ escape = 0x60) (directive : Option Directive) :
    updateEscape escape directive = 0x5C ∨ updateEscape escape directive = 0x60 := by
  cases directive with
  | none => exact hescape
  | some directive =>
    rw [updateEscape]
    split_ifs with hnamed
    · rcases hnamed.2 with hvalue | hvalue
      · rw [hvalue]
        exact .inl rfl
      · rw [hvalue]
        exact .inr rfl
    · exact hescape

theorem heredocSpans_singleton {lines : List Bytes} {doc : Heredoc} {spans : List Span}
    (hspans : heredocSpans lines idx [doc] = (spans, none)) : ∃ span, spans = [span] := by
  rw [heredocSpans] at hspans
  split at hspans
  · cases (Prod.mk.inj hspans).2
  · exact ⟨_, (Prod.mk.inj hspans).1.symm⟩

theorem Follows.advance (hfe : fe.Documented) {lines lines' future : List Bytes} {st st' next : LoopState fe}
    (hfollows : Follows st st') (hescape : st.escape = 0x5C ∨ st.escape = 0x60) (hidx : st.idx < lines.length)
    (hadvance : advance fe lines st = .ok next) (hlines : lines' = next.out ++ future)
    (hend : next.idx = lines.length → future = []) :
    (next.escape = 0x5C ∨ next.escape = 0x60) ∧ ∃ next', Dockerfile.advance fe lines' st' = .ok next' ∧
      Follows next next' ∧ Forall₂ Again (instructionOpened fe lines st) (instructionOpened fe lines' st') := by
  obtain ⟨directives, escape, header, spans, hheader, _, hspans, rfl⟩ := advance_spec fe hadvance
  have hescape' : escape = 0x5C ∨ escape = 0x60 := by
    obtain ⟨⟨directive, _, rfl⟩, _⟩ := directiveHeader_ok fe hheader
    exact updateEscape_escape hescape directive
  have hopened : instructionOpened fe lines st =
      [⟨slice lines st.idx (header.headerEnd + 1), header.rewrite, spans.map (Span.text lines)⟩] := by
    rw [instructionOpened, hheader]
    simp only [openedSpans_of_closed lines header.docs hspans]
  refine ⟨hescape', ?_⟩
  cases hrewrite : header.rewrite with
  | none =>
    obtain ⟨headerEnd', spans', hread', hspans', hline, hslice, hlast, htexts⟩ :=
      follows_kept hfollows hidx hheader hspans hlines hrewrite hend
    obtain ⟨⟨out, hadvance'⟩, hopened'⟩ := advance_follows hfollows hheader (by rw [hline]) hread' hspans'
    refine ⟨_, hadvance', ⟨hlast, rfl, rfl, rfl⟩, ?_⟩
    rw [hopened, hopened', hslice, htexts, hrewrite]
    exact .cons ⟨rfl, rfl, rfl⟩ .nil
  | some spec =>
    obtain ⟨spans', hread', hspans', ⟨d, hdocs⟩, hline, hslice, hlast, htexts⟩ :=
      follows_rewritten hfollows hidx hheader hspans hlines hfe hescape' hrewrite
    obtain ⟨⟨out, hadvance'⟩, hopened'⟩ := advance_follows hfollows hheader hline hread' hspans'
    refine ⟨_, hadvance', ⟨hlast, rfl, rfl, rfl⟩, ?_⟩
    rw [hopened, hopened', hslice, htexts, hrewrite]
    refine .cons ⟨rfl, rfl, rfl, ?_⟩ .nil
    -- the heredoc was closed, so it is the one that was found
    rw [hdocs] at hspans
    obtain ⟨span, rfl⟩ := heredocSpans_singleton hspans
    exact ⟨_, _, rfl⟩

/-! ### The two runs -/

theorem loop_out {lines : List Bytes} {final : LoopState fe} (fuel : Nat) {st : LoopState fe}
    (hloop : loop fe lines fuel st = .ok final) :
    ∃ future, final.out = st.out ++ future ∧ (st.idx = lines.length → future = []) := by
  induction fuel generalizing st with
  | zero =>
    obtain rfl := Except.ok.inj hloop
    exact ⟨[], (append_nil _).symm, fun _ => rfl⟩
  | succ fuel ih =>
    rw [loop] at hloop
    split_ifs at hloop with hidx
    · cases hadvance : advance fe lines st with
      | error e =>
        rw [hadvance] at hloop
        cases hloop
      | ok next =>
        rw [hadvance] at hloop
        obtain ⟨_, _, _, _, _, _, _, hnext⟩ := advance_spec fe hadvance
        obtain ⟨future, hout, _⟩ := ih hloop
        rw [hnext, append_assoc] at hout
        exact ⟨_, hout, fun hlast => absurd hidx (by omega)⟩
    · obtain rfl := Except.ok.inj hloop
      exact ⟨[], (append_nil _).symm, fun _ => rfl⟩

theorem loop_behind {lines : List Bytes} {st : LoopState fe} (hidx : lines.length ≤ st.idx) (fuel : Nat) :
    loop fe lines fuel st = .ok st ∧ collect fe (instructionOpened fe lines) lines fuel st = [] := by
  cases fuel with
  | zero => exact ⟨rfl, rfl⟩
  | succ fuel =>
    rw [loop, collect, if_neg (Nat.not_lt.2 hidx), if_neg (Nat.not_lt.2 hidx)]
    exact ⟨rfl, rfl⟩

theorem advance_emits {lines : List Bytes} {st next : LoopState fe} (hidx : st.idx < lines.length)
    (hadvance : advance fe lines st = .ok next) : st.out.length < next.out.length := by
  obtain ⟨_, _, header, spans, hheader, _, hspans, rfl⟩ := advance_spec fe hadvance
  obtain ⟨hstart, hbehind, hstop⟩ := iteration_bounds hidx hheader hspans
  have hemit : 0 < (emit lines st.idx (lastLine header.headerEnd spans) header).length := by
    rw [emit]
    split
    · exact Nat.succ_pos _
    · rw [slice_count lines hstop]
      omega
  rw [length_append]
  omega

theorem Follows.done {lines : List Bytes} {st st' : LoopState fe} (hfollows : Follows st st')
    (hidx : lines.length ≤ st.idx) (fuel fuel' : Nat) :
    ∃ final', Dockerfile.loop fe st.out fuel' st' = .ok final' ∧ final'.changed = false ∧
      Forall₂ Again (collect fe (instructionOpened fe lines) lines fuel st)
        (collect fe (instructionOpened fe st.out) st.out fuel' st') := by
  obtain ⟨hloop', hcollect'⟩ := loop_behind hfollows.idx.ge fuel'
  refine ⟨st', hloop', hfollows.changed, ?_⟩
  rw [(loop_behind hidx fuel).2, hcollect']
  exact .nil

theorem Follows.loop (hfe : fe.Documented) {lines : List Bytes} {final : LoopState fe} (fuel : Nat)
    {st st' : LoopState fe} (hfollows : Follows st st') (hescape : st.escape = 0x5C ∨ st.escape = 0x60)
    (hfuel : lines.length ≤ st.idx + fuel) (hloop : loop fe lines fuel st = .ok final) (fuel' : Nat)
    (hfuel' : final.out.length ≤ st'.idx + fuel') :
    ∃ final', Dockerfile.loop fe final.out fuel' st' = .ok final' ∧ final'.changed = false ∧
      Forall₂ Again (collect fe (instructionOpened fe lines) lines fuel st)
        (collect fe (instructionOpened fe final.out) final.out fuel' st') := by
  induction fuel generalizing st st' fuel' with
  | zero =>
    obtain rfl := Except.ok.inj hloop
    exact hfollows.done hfuel 0 fuel'
  | succ fuel ih =>
    rw [Dockerfile.loop] at hloop
    split_ifs at hloop with hidx
    · cases hadvance : Dockerfile.advance fe lines st with
      | error e =>
        rw [hadvance] at hloop
        cases hloop
      | ok next =>
        rw [hadvance] at hloop
        obtain ⟨future, hout, hend⟩ := loop_out fuel hloop
        obtain ⟨hescape', next', hadvance', hnext, hopened⟩ :=
          hfollows.advance hfe hescape hidx hadvance hout hend
        have hmoves := advance_moves fe hidx hadvance
        have hemits := advance_emits hidx hadvance
        have hidx' : st'.idx < final.out.length := by
          rw [hfollows.idx, hout, length_append]
          omega
        obtain ⟨rest, rfl⟩ : ∃ rest, fuel' = rest + 1 := ⟨fuel' - 1, by omega⟩
        have hrest : final.out.length ≤ next'.idx + rest := by
          rw [hfollows.idx] at hfuel'
          rw [hnext.idx]
          omega
        obtain ⟨final', hloop', hchanged, hlater⟩ := ih hnext hescape' (by omega) hloop rest hrest
        refine ⟨final', ?_, hchanged, ?_⟩
        · rw [Dockerfile.loop, if_pos hidx', hadvance']
          exact hloop'
        · rw [collect, collect, if_pos hidx, if_pos hidx', hadvance, hadvance']
          exact rel_append hopened hlater
    · obtain rfl := Except.ok.inj hloop
      exact hfollows.done (Nat.not_lt.1 hidx) (fuel + 1) fuel'

end BuildkitService.Dockerfile
