import BuildkitService.Dockerfile.Frame

/-!
# Heredoc bodies are opaque

Two runs of the preprocessor on Dockerfiles that differ in the body of one heredoc only.
-/

namespace BuildkitService.Dockerfile

open Strings List Option

structure SameButBody (span : Span) (lines lines' : List Bytes) : Prop where
  length_eq : lines'.length = lines.length
  outside : ∀ i, i < span.bodyStart ∨ span.stop ≤ i → lines'[i]? = lines[i]?
  body : ∀ i line, span.bodyStart ≤ i → i < span.stop → lines'[i]? = some line →
    isTerminator span.doc.name span.doc.chomp line = false

theorem joinHeader_ge (escape : UInt8) (start : Nat) :
    ∀ (raw : Bytes) (rest : List Bytes) (stop : Nat) (header : Bytes),
      stop ≤ (joinHeader escape start (raw :: rest) stop header).2
  | raw, [], stop, header => by
      simp only [joinHeader]
      split_ifs <;> simp
  | raw, next :: rest, stop, header => by
      have hnext := fun header' => joinHeader_ge escape start next rest (stop + 1) header'
      rw [joinHeader]
      dsimp only
      split_ifs
      · exact le_rfl
      · exact le_trans (Nat.le_succ _) (hnext _)
      · exact le_trans (Nat.le_succ _) (hnext _)
      · exact le_rfl

theorem joinHeader_congr (escape : UInt8) (start : Nat) :
    ∀ (rest rest' : List Bytes) (stop : Nat) (header : Bytes), rest'.length = rest.length →
      (∀ j, stop + j ≤ (joinHeader escape start rest stop header).2 → rest'[j]? = rest[j]?) →
      joinHeader escape start rest' stop header = joinHeader escape start rest stop header
  | [], rest', stop, header, hlen, _ => by
      rw [length_nil, length_eq_zero_iff] at hlen
      rw [hlen]
  | raw :: rest, [], stop, header, hlen, _ => by simp at hlen
  | raw :: rest, raw' :: rest', stop, header, hlen, hagree => by
      have hraw : raw' = raw := by
        have := hagree 0 (joinHeader_ge escape start raw rest stop header)
        simpa using this
      subst hraw
      have htail : ∀ header', (joinHeader escape start (raw' :: rest) stop header) =
          joinHeader escape start rest (stop + 1) header' →
          joinHeader escape start rest' (stop + 1) header' =
            joinHeader escape start rest (stop + 1) header' := by
        intro header' heq
        apply joinHeader_congr escape start rest rest' (stop + 1) header' (by simpa using hlen)
        intro j hj
        have := hagree (j + 1) (by rw [heq]; omega)
        simpa using this
      rw [joinHeader] at htail
      rw [joinHeader, joinHeader]
      dsimp only at htail ⊢
      split_ifs at htail ⊢
      · rfl
      · exact htail _ rfl
      · exact htail _ rfl
      · rfl

variable {start : Nat}

theorem instructionHeader_congr {lines lines' : List Bytes} {escape : UInt8}
    (hlen : lines'.length = lines.length)
    (hagree : ∀ i, start ≤ i → i ≤ (instructionHeader lines start escape).2 → lines'[i]? = lines[i]?) :
    instructionHeader lines' start escape = instructionHeader lines start escape := by
  rw [instructionHeader, instructionHeader]
  apply joinHeader_congr
  · rw [length_drop, length_drop, hlen]
  · intro j hj
    rw [getElem?_drop, getElem?_drop]
    exact hagree (start + j) (Nat.le_add_right _ _) hj

theorem findHeredocEnd_congr {lines lines' : List Bytes} {delimiter : Bytes} {stripTabs : Bool}
    (hlen : lines'.length = lines.length)
    (hagree : ∀ i, start ≤ i → (∀ stop, findHeredocEnd lines start delimiter stripTabs = some stop → i ≤ stop) → (lines'[i]?).map (isTerminator delimiter stripTabs) = (lines[i]?).map (isTerminator delimiter stripTabs)) :
    findHeredocEnd lines' start delimiter stripTabs = findHeredocEnd lines start delimiter stripTabs := by
  set p := isTerminator delimiter stripTabs with hp
  have hget : ∀ j, (lines'.drop start)[j]? = lines'[start + j]? := fun j => getElem?_drop
  cases hfind : (lines.drop start).findIdx? p with
  | none =>
    have hnone : findHeredocEnd lines start delimiter stripTabs = none := by
      rw [findHeredocEnd, ← hp, hfind, map_none]
    rw [hnone, findHeredocEnd, ← hp, map_eq_none_iff, findIdx?_eq_none_iff]
    rw [findIdx?_eq_none_iff] at hfind
    intro line hline
    obtain ⟨j, hj⟩ := mem_iff_getElem?.1 hline
    rw [hget] at hj
    have hterm := hagree (start + j) (Nat.le_add_right _ _) (by simp [hnone])
    rw [hj, map_some] at hterm
    obtain ⟨old, hold, hpold⟩ := map_eq_some_iff.1 hterm.symm
    rw [← hpold]
    refine hfind old (mem_iff_getElem?.2 ⟨j, ?_⟩)
    rw [getElem?_drop, hold]
  | some offset =>
    have hsome : findHeredocEnd lines start delimiter stripTabs = some (offset + start) := by
      rw [findHeredocEnd, ← hp, hfind, map_some]
    have hterm : ∀ j, j ≤ offset → (lines'[start + j]?).map p = (lines[start + j]?).map p := by
      intro j hj
      apply hagree (start + j) (Nat.le_add_right _ _)
      intro stop hstop
      rw [hsome, Option.some.injEq] at hstop
      omega
    have hlt' : offset < (lines'.drop start).length := by
      have := (findIdx?_eq_some_iff_getElem.1 hfind).1
      rw [length_drop] at this ⊢
      omega
    obtain ⟨hlt, hat, hbefore⟩ := findIdx?_eq_some_iff_getElem.1 hfind
    have hvalue : ∀ j (hj : j ≤ offset),
        p ((lines'.drop start)[j]) = p ((lines.drop start)[j]) := by
      intro j hj
      have h := hterm j hj
      rw [← getElem?_drop, ← getElem?_drop, getElem?_eq_getElem (by omega),
        getElem?_eq_getElem (by omega)] at h
      simpa using h
    rw [hsome, findHeredocEnd, ← hp, map_eq_some_iff]
    refine ⟨offset, ?_, rfl⟩
    rw [findIdx?_eq_some_iff_getElem]
    refine ⟨hlt', by rw [hvalue offset le_rfl]; exact hat, ?_⟩
    intro j hj
    rw [hvalue j (by omega)]
    exact hbefore j hj

theorem findHeredocEnd_before {lines : List Bytes} {i : Nat} {delimiter line : Bytes} {stripTabs : Bool}
    (hstart : start ≤ i)
    (hbefore : ∀ stop, findHeredocEnd lines start delimiter stripTabs = some stop → i < stop)
    (hline : lines[i]? = some line) : isTerminator delimiter stripTabs line = false := by
  have hmem : (lines.drop start)[i - start]? = some line := by
    rw [getElem?_drop, Nat.add_sub_cancel' hstart, hline]
  cases hfind : (lines.drop start).findIdx? (isTerminator delimiter stripTabs) with
  | none => exact findIdx?_eq_none_iff.1 hfind line (mem_iff_getElem?.2 ⟨_, hmem⟩)
  | some offset =>
    have hi := hbefore (offset + start) (by rw [findHeredocEnd, hfind, map_some])
    obtain ⟨hlt, -, hsmaller⟩ := findIdx?_eq_some_iff_getElem.1 hfind
    have hfalse := hsmaller (i - start) (by omega)
    rw [getElem?_eq_getElem (by omega), Option.some.injEq] at hmem
    rw [hmem, Bool.not_eq_true] at hfalse
    exact hfalse

theorem openedSpans_bounds (lines : List Bytes) : ∀ (docs : List Heredoc) {idx : Nat}, idx < lines.length →
    ∀ span ∈ openedSpans lines idx docs, idx < span.bodyStart ∧ span.bodyStart ≤ span.stop
  | [], idx, _, span, hspan => by simp [openedSpans] at hspan
  | doc :: docs, idx, hidx, span, hspan => by
      simp only [openedSpans] at hspan
      cases hfind : findHeredocEnd lines (idx + 1) doc.name doc.chomp with
      | none =>
        simp only [hfind, mem_singleton] at hspan
        rw [hspan]
        exact ⟨Nat.lt_succ_self idx, hidx⟩
      | some stop =>
        have hstop := findHeredocEnd_bounds hfind
        simp only [hfind, mem_cons] at hspan
        rcases hspan with rfl | htail
        · exact ⟨Nat.lt_succ_self idx, hstop.1⟩
        · have := openedSpans_bounds lines docs hstop.2 span htail
          exact ⟨by omega, this.2⟩

section TwoFiles

variable {lines lines' : List Bytes}

theorem heredocSpans_congr_after (hlen : lines'.length = lines.length) :
    ∀ (docs : List Heredoc) {idx : Nat}, (∀ i, idx < i → lines'[i]? = lines[i]?) →
      heredocSpans lines' idx docs = heredocSpans lines idx docs
  | [], _, _ => rfl
  | doc :: docs, idx, hagree => by
      have hfind : findHeredocEnd lines' (idx + 1) doc.name doc.chomp =
          findHeredocEnd lines (idx + 1) doc.name doc.chomp :=
        findHeredocEnd_congr hlen fun i hi _ => by rw [hagree i hi]
      simp only [heredocSpans, hfind]
      cases hstop : findHeredocEnd lines (idx + 1) doc.name doc.chomp with
      | none => rfl
      | some stop =>
        have hbounds := findHeredocEnd_bounds hstop
        simp only [heredocSpans_congr_after hlen docs fun i (hi : stop < i) => hagree i (by omega)]

theorem heredocSpans_congr_upto (hlen : lines'.length = lines.length) :
    ∀ (docs : List Heredoc) {idx : Nat} {spans : List Span}, heredocSpans lines idx docs = (spans, none) →
      (∀ i, i ≤ lastLine idx spans → lines'[i]? = lines[i]?) →
      heredocSpans lines' idx docs = (spans, none)
  | [], _, _, hspans, _ => hspans
  | doc :: docs, idx, spans, hspans, hagree => by
      simp only [heredocSpans] at hspans ⊢
      cases hstop : findHeredocEnd lines (idx + 1) doc.name doc.chomp with
      | none => simp [hstop] at hspans
      | some stop =>
        simp only [hstop, Prod.mk.injEq] at hspans
        obtain ⟨rfl, hclosed⟩ := hspans
        rw [lastLine_cons] at hagree
        have hlast := (heredocSpans_bounds lines docs (findHeredocEnd_bounds hstop).2).1
        have hfind : findHeredocEnd lines' (idx + 1) doc.name doc.chomp = some stop := by
          rw [findHeredocEnd_congr hlen, hstop]
          intro i _ hi
          rw [hagree i (le_trans (hi stop hstop) hlast)]
        simp only [hfind, heredocSpans_congr_upto hlen docs (Prod.ext rfl hclosed) hagree]

theorem heredocSpans_congr_body {span : Span} (hsame : SameButBody span lines lines') :
    ∀ (docs : List Heredoc) {idx : Nat}, span ∈ openedSpans lines idx docs →
      heredocSpans lines' idx docs = heredocSpans lines idx docs
  | [], _, hspan => by simp [openedSpans] at hspan
  | doc :: docs, idx, hspan => by
      simp only [openedSpans] at hspan
      simp only [heredocSpans]
      -- In the body neither file has a terminator; elsewhere the lines are the same.
      have hown : span.doc = doc → span.bodyStart = idx + 1 →
          (∀ stop, findHeredocEnd lines (idx + 1) doc.name doc.chomp = some stop → span.stop = stop) →
          (findHeredocEnd lines (idx + 1) doc.name doc.chomp = none → span.stop = lines.length) →
          findHeredocEnd lines' (idx + 1) doc.name doc.chomp =
            findHeredocEnd lines (idx + 1) doc.name doc.chomp := by
        intro hdoc hstart hsome hnone
        apply findHeredocEnd_congr hsame.length_eq
        intro i hi _
        by_cases hbody : i < span.stop
        · have hlt : i < lines.length := by
            cases hfind : findHeredocEnd lines (idx + 1) doc.name doc.chomp with
            | none =>
              rw [hnone hfind] at hbody
              exact hbody
            | some stop =>
              rw [hsome stop hfind] at hbody
              exact lt_trans hbody (findHeredocEnd_bounds hfind).2
          have hlt' : i < lines'.length := by rw [hsame.length_eq]; exact hlt
          have hnew := hsame.body i lines'[i] (by omega) hbody (getElem?_eq_getElem hlt')
          have hold : isTerminator doc.name doc.chomp lines[i] = false :=
            findHeredocEnd_before hi (fun stop hstop => by rw [← hsome stop hstop]; exact hbody)
              (getElem?_eq_getElem hlt)
          rw [hdoc] at hnew
          rw [getElem?_eq_getElem hlt', getElem?_eq_getElem hlt, map_some,
            map_some, hnew, hold]
        · rw [hsame.outside i (.inr (by omega))]
      cases hfind : findHeredocEnd lines (idx + 1) doc.name doc.chomp with
      | none =>
        simp only [hfind, mem_singleton] at hspan
        rw [hown (by rw [hspan]) (by rw [hspan]) (by simp [hfind]) (fun _ => by rw [hspan]), hfind]
      | some stop =>
        simp only [hfind, mem_cons] at hspan
        rcases hspan with hspan | htail
        · have hrest := heredocSpans_congr_after hsame.length_eq docs fun i (hi : stop < i) =>
            hsame.outside i (.inr (by rw [hspan]; exact le_of_lt hi))
          rw [hown (by rw [hspan]) (by rw [hspan]) (by simp [hfind, hspan]) (by simp [hfind]), hfind]
          simp only [hrest]
        · have hbefore := (openedSpans_bounds lines docs (findHeredocEnd_bounds hfind).2 span htail).1
          have hstop : findHeredocEnd lines' (idx + 1) doc.name doc.chomp = some stop := by
            rw [findHeredocEnd_congr hsame.length_eq, hfind]
            intro i _ hi
            rw [hsame.outside i (.inl (by have := hi stop hfind; omega))]
          rw [hstop]
          simp only [heredocSpans_congr_body hsame docs htail]

theorem slice_congr {stop : Nat} (hagree : ∀ i, start ≤ i → i < stop → lines'[i]? = lines[i]?) :
    slice lines' start stop = slice lines start stop := by
  apply ext_getElem?
  intro j
  rw [slice, slice, getElem?_drop, getElem?_drop, getElem?_take, getElem?_take]
  by_cases hj : start + j < stop
  · rw [if_pos hj, if_pos hj, hagree _ (Nat.le_add_right _ _) hj]
  · rw [if_neg hj, if_neg hj]

theorem replaceRanges_congr {limit : Nat} : ∀ {pos : Nat} {rws : List Rewrite}, Placed limit pos rws →
    (∀ i, pos ≤ i → lines'[i]? = lines[i]?) →
    replaceRanges lines' limit pos rws = replaceRanges lines limit pos rws
  | _, [], _, hagree => slice_congr fun i hi _ => hagree i hi
  | pos, rw :: rws, ⟨hpos, hrange, hrest⟩, hagree => by
      have htail := replaceRanges_congr hrest fun i hi => hagree i (by omega)
      have hslice : slice lines' pos rw.start = slice lines pos rw.start :=
        slice_congr fun i hi _ => hagree i hi
      simp only [replaceRanges, htail, hslice]

theorem replaceRanges_around (lines : List Bytes) {stop limit : Nat} (hle : start ≤ stop)
    (hlimit : stop ≤ limit) : ∀ {pos : Nat} {rws : List Rewrite}, Placed limit pos rws → pos ≤ start →
      (∀ rw ∈ rws, rw.stop < start ∨ stop < rw.start) →
      ∃ front back, ∀ lines' : List Bytes, (∀ i, i < start ∨ stop ≤ i → lines'[i]? = lines[i]?) →
        replaceRanges lines' limit pos rws = front ++ slice lines' start stop ++ back
  | pos, [], _, hpos, _ => by
      refine ⟨slice lines pos start, slice lines stop limit, ?_⟩
      intro lines' hagree
      have hfront : slice lines' pos start = slice lines pos start :=
        slice_congr fun i _ hi => hagree i (.inl hi)
      have hback : slice lines' stop limit = slice lines stop limit :=
        slice_congr fun i hi _ => hagree i (.inr hi)
      rw [replaceRanges, ← hfront, ← hback, slice_append hpos hle, slice_append (le_trans hpos hle) hlimit]
  | pos, rw :: rws, ⟨hstart, hrange, hrest⟩, hpos, hapart => by
      rcases hapart rw mem_cons_self with hbefore | hafter
      · obtain ⟨front, back, hsplit⟩ := replaceRanges_around lines hle hlimit hrest hbefore
          fun other hother => hapart other (mem_cons_of_mem _ hother)
        refine ⟨slice lines pos rw.start ++ [copyHeader rw.spec] ++ front, back, ?_⟩
        intro lines' hagree
        have hfront : slice lines' pos rw.start = slice lines pos rw.start :=
          slice_congr fun i _ hi => hagree i (.inl (by omega))
        simp only [replaceRanges, hfront, hsplit lines' hagree, append_assoc]
      · refine ⟨slice lines pos start, slice lines stop rw.start ++ [copyHeader rw.spec] ++
          replaceRanges lines limit (rw.stop + 1) rws, ?_⟩
        intro lines' hagree
        have hfront : slice lines' pos start = slice lines pos start :=
          slice_congr fun i _ hi => hagree i (.inl hi)
        have hback : slice lines' stop rw.start = slice lines stop rw.start :=
          slice_congr fun i hi _ => hagree i (.inr hi)
        have htail := replaceRanges_congr hrest fun i hi => hagree i (.inr (by omega))
        rw [replaceRanges, htail, ← slice_append (le_trans hpos hle) (le_of_lt hafter),
          ← slice_append hpos hle, hfront, hback]
        simp only [append_assoc]

variable (fe : Frontend)

theorem readHeader_congr {escape : UInt8}
    (hheader : instructionHeader lines' start escape = instructionHeader lines start escape) :
    readHeader fe lines' start escape = readHeader fe lines start escape := by
  simp only [readHeader, hheader]

theorem directiveHeader_congr {st : LoopState fe} (hidx : st.idx < lines.length)
    (hlen : lines'.length = lines.length) (hagree : ∀ i, st.idx ≤ i → (∀ directives escape header,
        directiveHeader fe lines st = .ok (directives, escape, header) → i ≤ header.headerEnd) →
      lines'[i]? = lines[i]?) :
    directiveHeader fe lines' st = directiveHeader fe lines st := by
  have hend : ∀ directives escape header,
      directiveHeader fe lines st = .ok (directives, escape, header) →
        header.headerEnd = (instructionHeader lines st.idx escape).2 := by
    intro directives escape header hok
    exact (readHeader_spec fe (directiveHeader_ok fe hok).2).1
  have hline : lines'.getD st.idx [] = lines.getD st.idx [] := by
    rw [getD_eq_getElem?_getD, getD_eq_getElem?_getD, hagree st.idx le_rfl]
    intro directives escape header hok
    rw [hend directives escape header hok]
    exact (instructionHeader_bounds escape hidx).1
  cases hparse : fe.parseLine st.directives (trimSpace (lines.getD st.idx [])) with
  | mk directives parsed =>
    cases parsed with
    | error e => simp only [directiveHeader, hline, hparse]
    | ok directive =>
      have hheader : instructionHeader lines' st.idx (updateEscape st.escape directive) =
          instructionHeader lines st.idx (updateEscape st.escape directive) := by
        apply instructionHeader_congr hlen
        intro i hi hle
        apply hagree i hi
        intro directives' escape header hok
        rw [hend directives' escape header hok]
        obtain ⟨⟨found, hfound, rfl⟩, -⟩ := directiveHeader_ok fe hok
        rw [hparse, Prod.mk.injEq, Except.ok.injEq] at hfound
        rw [← hfound.2]
        exact hle
      simp only [directiveHeader, hline, hparse, readHeader_congr fe hheader]

def SameControl : Except Bytes (LoopState fe) → Except Bytes (LoopState fe) → Prop
  | .error e, .error e' => e' = e
  | .ok st, .ok st' => ∃ out, st' = { st with out := out }
  | _, _ => False

theorem advance_congr {st : LoopState fe}
    (hheader : directiveHeader fe lines' st = directiveHeader fe lines st)
    (hspans : ∀ directives escape header,
      directiveHeader fe lines st = .ok (directives, escape, header) →
        heredocSpans lines' header.headerEnd header.docs = heredocSpans lines header.headerEnd header.docs)
    (out : List Bytes) :
    SameControl fe (advance fe lines st) (advance fe lines' { st with out := out }) := by
  have hheader' : directiveHeader fe lines' { st with out := out } = directiveHeader fe lines st := hheader
  rw [advance, advance, hheader']
  cases hread : directiveHeader fe lines st with
  | error e => rfl
  | ok found =>
    obtain ⟨directives, escape, header⟩ := found
    simp only [hspans directives escape header hread]
    cases heredocSpans lines header.headerEnd header.docs with
    | mk spans missing =>
      cases missing with
      | some doc => rfl
      | none => exact ⟨_, rfl⟩

def SameRun (lines lines' : List Bytes) (fuel : Nat) (st st' : LoopState fe) : Prop :=
  SameControl fe (loop fe lines fuel st) (loop fe lines' fuel st') ∧
    collect fe (instructionRewrites fe lines') lines' fuel st' =
      collect fe (instructionRewrites fe lines) lines fuel st

theorem sameRun_step {fuel : Nat} {st : LoopState fe} (hlen : lines'.length = lines.length)
    (hheader : directiveHeader fe lines' st = directiveHeader fe lines st)
    (hspans : ∀ directives escape header,
      directiveHeader fe lines st = .ok (directives, escape, header) →
        heredocSpans lines' header.headerEnd header.docs = heredocSpans lines header.headerEnd header.docs)
    (hnext : ∀ next, advance fe lines st = .ok next → ∀ out,
      SameRun fe lines lines' fuel next { next with out := out }) (out : List Bytes) :
    SameRun fe lines lines' (fuel + 1) st { st with out := out } := by
  have hrws : instructionRewrites fe lines' { st with out := out } = instructionRewrites fe lines st := by
    have hheader' : directiveHeader fe lines' { st with out := out } = directiveHeader fe lines st := hheader
    rw [instructionRewrites, instructionRewrites, hheader']
  have hcontrol := advance_congr fe hheader hspans out
  simp only [SameRun, loop, collect, hlen, hrws]
  by_cases hidx : st.idx < lines.length
  · rw [if_pos hidx, if_pos hidx, if_pos hidx, if_pos hidx]
    cases hleft : advance fe lines st with
    | error e =>
      rw [hleft] at hcontrol
      cases hright : advance fe lines' { st with out := out } with
      | error e' =>
        rw [hright] at hcontrol
        exact ⟨hcontrol, rfl⟩
      | ok next' => simp [hright, SameControl] at hcontrol
    | ok next =>
      rw [hleft] at hcontrol
      cases hright : advance fe lines' { st with out := out } with
      | error e' => simp [hright, SameControl] at hcontrol
      | ok next' =>
        rw [hright] at hcontrol
        obtain ⟨out', rfl⟩ := hcontrol
        obtain ⟨hloop, hcollect⟩ := hnext next hleft out'
        exact ⟨hloop, by simp only [hcollect]⟩
  · rw [if_neg hidx, if_neg hidx, if_neg hidx, if_neg hidx]
    exact ⟨⟨out, rfl⟩, rfl⟩

theorem sameRun_after (hlen : lines'.length = lines.length) :
    ∀ (fuel : Nat) (st : LoopState fe), (∀ i, st.idx ≤ i → lines'[i]? = lines[i]?) →
      ∀ out, SameRun fe lines lines' fuel st { st with out := out }
  | 0, _, _, out => ⟨⟨out, rfl⟩, rfl⟩
  | fuel + 1, st, hagree, out => by
      by_cases hidx : st.idx < lines.length
      · apply sameRun_step fe hlen
        · exact directiveHeader_congr fe hidx hlen fun i hi _ => hagree i hi
        · intro directives escape header hok
          have hread := readHeader_spec fe (directiveHeader_ok fe hok).2
          have hbounds := instructionHeader_bounds escape hidx
          apply heredocSpans_congr_after hlen
          intro i hi
          exact hagree i (by omega)
        · intro next hadvance
          have hmoves := advance_moves fe hidx hadvance
          exact sameRun_after hlen fuel next fun i hi => hagree i (by omega)
      · simp only [SameRun, loop, collect, hlen, if_neg hidx]
        exact ⟨⟨out, rfl⟩, trivial⟩

theorem collect_bounds : ∀ (fuel : Nat) (st : LoopState fe),
    ∀ span ∈ collect fe (instructionSpans fe lines) lines fuel st,
      st.idx < span.bodyStart ∧ span.bodyStart ≤ span.stop
  | 0, _, _, hspan => by simp [collect] at hspan
  | fuel + 1, st, span, hspan => by
      simp only [collect] at hspan
      by_cases hidx : st.idx < lines.length
      · rw [if_pos hidx] at hspan
        rcases mem_append.1 hspan with hhere | hlater
        · simp only [instructionSpans] at hhere
          split at hhere
          · simp at hhere
          · rename_i escape header hok
            have hbounds := instructionHeader_bounds escape hidx
            rw [← (readHeader_spec fe (directiveHeader_ok fe hok).2).1] at hbounds
            have := openedSpans_bounds lines header.docs hbounds.2 span hhere
            exact ⟨by omega, this.2⟩
        · cases hadvance : advance fe lines st with
          | error e => simp [hadvance] at hlater
          | ok next =>
            rw [hadvance] at hlater
            have hmoves := advance_moves fe hidx hadvance
            have := collect_bounds fuel next span hlater
            exact ⟨by omega, this.2⟩
      · simp [if_neg hidx] at hspan

theorem sameRun_body {span : Span} (hsame : SameButBody span lines lines') :
    ∀ (fuel : Nat) (st : LoopState fe),
      span ∈ collect fe (instructionSpans fe lines) lines fuel st →
      ∀ out, SameRun fe lines lines' fuel st { st with out := out }
  | 0, _, hspan, _ => by simp [collect] at hspan
  | fuel + 1, st, hspan, out => by
      simp only [collect] at hspan
      by_cases hidx : st.idx < lines.length
      · rw [if_pos hidx] at hspan
        rcases mem_append.1 hspan with hhere | hlater
        · rw [instructionSpans] at hhere
          cases hread : directiveHeader fe lines st with
          | error e => simp [hread] at hhere
          | ok found =>
            obtain ⟨directives, escape, header⟩ := found
            simp only [hread] at hhere
            have hend := (instructionHeader_bounds escape hidx).2
            rw [← (readHeader_spec fe (directiveHeader_ok fe hread).2).1] at hend
            have hbody := openedSpans_bounds lines header.docs hend span hhere
            apply sameRun_step fe hsame.length_eq
            · apply directiveHeader_congr fe hidx hsame.length_eq
              intro i _ hle
              have := hle directives escape header hread
              exact hsame.outside i (.inl (by omega))
            · intro directives' escape' header' hok
              rw [hread, Except.ok.injEq, Prod.mk.injEq, Prod.mk.injEq] at hok
              obtain ⟨_, _, rfl⟩ := hok
              exact heredocSpans_congr_body hsame header.docs hhere
            · intro next hadvance
              obtain ⟨_, escape', header', spans, hread', hheader, hspans, rfl⟩ := advance_spec fe hadvance
              rw [hread, Except.ok.injEq, Prod.mk.injEq, Prod.mk.injEq] at hread'
              obtain ⟨_, rfl, rfl⟩ := hread'
              have hinside := (heredocSpans_bounds lines header.docs hend).2.2 span
              rw [openedSpans_of_closed lines header.docs hspans] at hhere
              rw [hspans] at hinside
              have hpassed := (hinside hhere).2.2
              apply sameRun_after fe hsame.length_eq
              intro i hi
              simp only at hi hpassed
              exact hsame.outside i (.inr (by omega))
        · cases hadvance : advance fe lines st with
          | error e => simp [hadvance] at hlater
          | ok next =>
            rw [hadvance] at hlater
            have hafter := (collect_bounds fe fuel next span hlater).1
            obtain ⟨directives, escape, header, spans, hread, hheader, hspans, hnext⟩ :=
              advance_spec fe hadvance
            have hend := (instructionHeader_bounds escape hidx).2
            rw [← (readHeader_spec fe hheader).1] at hend
            have hlast := (heredocSpans_bounds lines header.docs hend).1
            rw [hspans] at hlast
            have hbefore : lastLine header.headerEnd spans < span.bodyStart := by
              rw [hnext] at hafter
              simp only at hafter
              omega
            simp only at hlast
            apply sameRun_step fe hsame.length_eq
            · apply directiveHeader_congr fe hidx hsame.length_eq
              intro i _ hle
              have := hle directives escape header hread
              exact hsame.outside i (.inl (by omega))
            · intro directives' escape' header' hok
              rw [hread, Except.ok.injEq, Prod.mk.injEq, Prod.mk.injEq] at hok
              obtain ⟨_, _, rfl⟩ := hok
              rw [hspans]
              apply heredocSpans_congr_upto hsame.length_eq header.docs hspans
              intro i hi
              exact hsame.outside i (.inl (by omega))
            · intro next' hadvance'
              rw [hadvance, Except.ok.injEq] at hadvance'
              subst hadvance'
              exact sameRun_body hsame fuel next hlater
      · simp [if_neg hidx] at hspan

end TwoFiles

def SameDecision (lines lines' : List Bytes) (start stop : Nat) :
    Except Bytes (Bytes × Bool) → Except Bytes (Bytes × Bool) → Prop
  | .error e, .error e' => e' = e
  | .ok (out, changed), .ok (out', changed') =>
      changed' = changed ∧ ∃ front back : List Bytes,
        out = (front ++ slice lines start stop ++ back).flatten ∧
        out' = (front ++ slice lines' start stop ++ back).flatten
  | _, _ => False

section Preprocessor

variable (fe : Frontend)

theorem transform_of_loop {raw : Bytes} {st : LoopState fe}
    (hloop : loop fe (splitDockerfileLines raw) (splitDockerfileLines raw).length (initial fe) = .ok st) :
    ∃ out, transformLegacyHeredocs fe raw = .ok (out, st.changed) := by
  simp only [transformLegacyHeredocs, hloop]
  by_cases hchanged : st.changed = true
  · exact ⟨st.out.flatten, by rw [if_pos hchanged, hchanged]⟩
  · rw [if_neg hchanged]
    exact ⟨raw, by rw [eq_false_of_ne_true hchanged]⟩

theorem transform_out {raw out : Bytes} {changed : Bool}
    (hok : transformLegacyHeredocs fe raw = .ok (out, changed)) :
    out = (replaceRanges (splitDockerfileLines raw) (splitDockerfileLines raw).length 0
      (rewrites fe raw)).flatten := by
  obtain ⟨st, hidx, hframed, _, hout⟩ := transform_framed fe hok
  rw [hout, hframed.out, hidx]

/-- The body of a heredoc does not decide anything. -/
theorem transform_ignores_body {raw raw' : Bytes} {span : Span} (hspan : span ∈ recognised fe raw)
    (hsame : SameButBody span (splitDockerfileLines raw) (splitDockerfileLines raw')) :
    rewrites fe raw' = rewrites fe raw ∧
      SameDecision (splitDockerfileLines raw) (splitDockerfileLines raw') span.bodyStart span.stop
        (transformLegacyHeredocs fe raw) (transformLegacyHeredocs fe raw') := by
  obtain ⟨hcontrol, hrws⟩ := sameRun_body fe hsame _ (initial fe) hspan []
  have hrws' : rewrites fe raw' = rewrites fe raw := by
    rw [rewrites, rewrites, ← hrws, hsame.length_eq]
    rfl
  refine ⟨hrws', ?_⟩
  have hright : loop fe (splitDockerfileLines raw') (splitDockerfileLines raw').length (initial fe) =
      loop fe (splitDockerfileLines raw') (splitDockerfileLines raw).length
        { initial fe with out := [] } := by
    rw [hsame.length_eq]
    rfl
  cases hloop : loop fe (splitDockerfileLines raw) (splitDockerfileLines raw).length (initial fe) with
  | error e =>
    rw [hloop, ← hright] at hcontrol
    cases hloop' : loop fe (splitDockerfileLines raw') (splitDockerfileLines raw').length (initial fe) with
    | error e' =>
      simp only [transformLegacyHeredocs, hloop, hloop']
      rw [hloop'] at hcontrol
      exact hcontrol
    | ok st' => simp [hloop', SameControl] at hcontrol
  | ok st =>
    rw [hloop, ← hright] at hcontrol
    cases hloop' : loop fe (splitDockerfileLines raw') (splitDockerfileLines raw').length (initial fe) with
    | error e' => simp [hloop', SameControl] at hcontrol
    | ok st' =>
      rw [hloop'] at hcontrol
      obtain ⟨emitted, rfl⟩ := hcontrol
      obtain ⟨out, hok⟩ := transform_of_loop fe hloop
      obtain ⟨out', hok'⟩ := transform_of_loop fe hloop'
      obtain ⟨final, hend, hframed, _, _⟩ := transform_framed fe hok
      have hstop := hframed.passed span hspan
      rw [hend] at hstop
      obtain ⟨front, back, haround⟩ := replaceRanges_around (splitDockerfileLines raw)
        (collect_bounds fe _ _ span hspan).2 (le_of_lt hstop) (hend ▸ hframed.placed) (Nat.zero_le _)
        fun rw hrw => hframed.apart rw hrw span hspan
      rw [hok, hok']
      refine ⟨rfl, front, back, ?_, ?_⟩
      · rw [transform_out fe hok, haround _ fun _ _ => rfl]
      · rw [transform_out fe hok', hrws', hsame.length_eq, haround _ hsame.outside]

end Preprocessor

theorem motd_body_opaque :
    (⟨⟨ascii "EOF", false⟩, 2, 3⟩ : Span) ∈ recognised catFrontend (motdDockerfile "hello") ∧
    SameDecision (splitDockerfileLines (motdDockerfile "hello"))
      (splitDockerfileLines (motdDockerfile "RUN cat <<A && cat >> b")) 2 3
      (transformLegacyHeredocs catFrontend (motdDockerfile "hello"))
      (transformLegacyHeredocs catFrontend (motdDockerfile "RUN cat <<A && cat >> b")) := by
  have hspan : (⟨⟨ascii "EOF", false⟩, 2, 3⟩ : Span) ∈
      recognised catFrontend (motdDockerfile "hello") := by decide +kernel
  have hlines : splitDockerfileLines (motdDockerfile "RUN cat <<A && cat >> b") =
      (splitDockerfileLines (motdDockerfile "hello")).set 2 (ascii "RUN cat <<A && cat >> b\n") := by
    decide +kernel
  refine ⟨hspan, (transform_ignores_body catFrontend hspan ⟨?_, ?_, ?_⟩).2⟩
  · rw [hlines, List.length_set]
  · intro i hi
    rw [hlines, List.getElem?_set_ne]
    simp only at hi
    omega
  · intro i line hstart hstop hline
    obtain rfl : i = 2 := by
      simp only at hstart hstop
      omega
    rw [hlines] at hline
    have : line = ascii "RUN cat <<A && cat >> b\n" := by
      have hget : ((splitDockerfileLines (motdDockerfile "hello")).set 2
          (ascii "RUN cat <<A && cat >> b\n"))[2]? = some (ascii "RUN cat <<A && cat >> b\n") := by
        decide +kernel
      rw [hget] at hline
      exact (Option.some.inj hline).symm
    rw [this]
    decide +kernel

end BuildkitService.Dockerfile
