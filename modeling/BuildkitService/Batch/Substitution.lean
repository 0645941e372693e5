import BuildkitService.Batch.Variables

/-!
# Replacing one variable after the other

The loop of `replaceBuildVariables` gives what is meant, in every order, if the variables cannot be
mistaken for one another, no value brings in a `$` and no reference of the file stands right behind
an unfinished one.
-/

namespace BuildkitService.Batch

open Strings List

/-! ### When the order does not matter -/

def unfinished (vars : BuildVars) (front : Bytes) : Bool :=
  front.tails.any fun part => !part.isEmpty && vars.tokens.any fun token => part.isPrefixOf token && part != token

def detached (vars : BuildVars) (content : Bytes) : Bool :=
  (List.range (content.length + 1)).all fun n =>
    !vars.tokens.any (hasPrefix (content.drop n)) || !unfinished vars (content.take n)

def distinguishable (vars : BuildVars) : Bool :=
  vars.keys.all (fun key => !key.contains 0x24) && vars.all (fun entry => !entry.2.contains 0x24) &&
    vars.keys.all fun key => vars.keys.all fun other => !key.isPrefixOf other || key == other

theorem detached_of_check {vars : BuildVars} {content : Bytes} (hcheck : detached vars content = true) :
    Template.Detached {token | token ∈ vars.tokens} content := by
  intro front token rest hcontent htoken part hne hpart other hother hpre
  by_contra hdiff
  have hat := List.all_eq_true.1 hcheck front.length (by
    rw [mem_range, hcontent, append_assoc, length_append]
    omega)
  rw [hcontent, append_assoc, drop_left, take_left, Bool.or_eq_true, Bool.not_eq_true',
    Bool.not_eq_true'] at hat
  rcases hat with hno | hfinished
  · refine absurd hno (Bool.ne_false_iff.2 ?_)
    exact List.any_eq_true.2 ⟨token, htoken, isPrefixOf_iff_prefix.2 (prefix_append _ _)⟩
  · refine absurd hfinished (Bool.ne_false_iff.2 ?_)
    refine List.any_eq_true.2 ⟨part, (mem_tails _ _).2 hpart, ?_⟩
    rw [Bool.and_eq_true, Bool.not_eq_true', isEmpty_eq_false_iff, List.any_eq_true]
    refine ⟨hne, other, hother, ?_⟩
    rw [Bool.and_eq_true, isPrefixOf_iff_prefix, bne_iff_ne]
    exact ⟨hpre, hdiff⟩

section Tokens

variable {vars : BuildVars}

theorem tokens_of_distinguishable (haccepted : Accepted vars) (hdist : distinguishable vars = true) :
    Template.Tokens 0x24 {token | token ∈ vars.tokens} := by
  rw [distinguishable, Bool.and_eq_true, Bool.and_eq_true, List.all_eq_true, List.all_eq_true] at hdist
  obtain ⟨⟨hdollar, _⟩, hnames⟩ := hdist
  have hfree : ∀ key ∈ vars.keys, (0x24 : UInt8) ∉ key := by
    intro key hkey hmem
    have hno := hdollar key hkey
    rw [contains_iff_mem.2 hmem] at hno
    cases hno
  have hapart : ∀ key ∈ vars.keys, ∀ other ∈ vars.keys, key <+: other → key = other := by
    intro key hkey other hother hpre
    have hor := List.all_eq_true.1 (List.all_eq_true.1 hnames key hkey) other hother
    rw [Bool.or_eq_true, isPrefixOf_iff_prefix.2 hpre, beq_iff_eq] at hor
    exact hor.resolve_left Bool.false_ne_true
  constructor
  · intro token htoken
    obtain ⟨key, hkey, rfl | rfl⟩ := mem_tokens.1 htoken
    · exact ⟨key, rfl, hfree key hkey⟩
    · refine ⟨0x7B :: (key ++ [0x7D]), rfl, ?_⟩
      simp only [mem_cons, mem_append, not_mem_nil, or_false, not_or]
      exact ⟨by decide, hfree key hkey, by decide⟩
  · intro token htoken other hother hpre
    obtain ⟨key, hkey, rfl | rfl⟩ := mem_tokens.1 htoken
    · obtain ⟨key', hkey', rfl | rfl⟩ := mem_tokens.1 hother
      · rw [hapart key hkey key' hkey' (cons_prefix_cons.1 hpre).2]
      · exact absurd hpre (dollar_brace_apart (haccepted.named key hkey) key').1
    · obtain ⟨key', hkey', rfl | rfl⟩ := mem_tokens.1 hother
      · exact absurd hpre (dollar_brace_apart (haccepted.named key' hkey') key).2
      · rw [hapart key hkey key' hkey' (braceToken_starts hpre)]

theorem values_of_distinguishable (hdist : distinguishable vars = true) :
    ∀ entry ∈ vars, (0x24 : UInt8) ∉ entry.2 := by
  rw [distinguishable, Bool.and_eq_true, Bool.and_eq_true, List.all_eq_true, List.all_eq_true] at hdist
  intro entry hentry hdollar
  have hno := hdist.1.2 entry hentry
  rw [contains_iff_mem.2 hdollar] at hno
  cases hno

theorem readReference_reads (vars : BuildVars) :
    Template.Reads {token | token ∈ vars.tokens} (readReference vars) := by
  constructor
  · intro s token hread
    have hmem := mem_filter.1 (argmax_mem hread)
    exact ⟨hmem.1, isPrefixOf_iff_prefix.1 hmem.2⟩
  · intro s hread token htoken hpre
    have hnil := argmax_eq_none.1 hread
    have hmem : token ∈ vars.tokens.filter (hasPrefix s) :=
      mem_filter.2 ⟨htoken, isPrefixOf_iff_prefix.2 hpre⟩
    rw [hnil] at hmem
    cases hmem

end Tokens

/-! ### The loop -/

section Loop

variable {vars done : BuildVars} {key value : Bytes}

theorem Accepted.of_append {more : BuildVars} (haccepted : Accepted (done ++ more)) : Accepted done := by
  have hkeys : (done ++ more).keys = done.keys ++ more.keys := map_append
  constructor
  · intro key hkey
    refine haccepted.named key ?_
    rw [hkeys]
    exact mem_append_left _ hkey
  · have hnodup := haccepted.nodup
    rw [hkeys] at hnodup
    exact hnodup.of_append_left

theorem value_concat (token : Bytes) : (done ++ [(key, value)]).value token =
    (done.value token).or (if token = dollarToken key ∨ token = braceToken key then some value else none) := by
  rw [BuildVars.value, BuildVars.value, find?_append, find?_singleton]
  cases done.find? fun entry => token == dollarToken entry.1 || token == braceToken entry.1 with
  | some entry => rfl
  | none =>
    by_cases htoken : token = dollarToken key ∨ token = braceToken key
    · simp [htoken]
    · simp [not_or.1 htoken]

theorem value_none (haccepted : Accepted (done ++ [(key, value)])) {token : Bytes}
    (htoken : token = dollarToken key ∨ token = braceToken key) : done.value token = none := by
  have hkeys : (done ++ [(key, value)]).keys = done.keys ++ [key] := map_append
  cases hvalue : done.value token with
  | none => rfl
  | some other =>
    obtain ⟨key', hmem, htoken'⟩ := (value_eq_some_iff haccepted.of_append).1 hvalue
    have hmem' : key' ∈ done.keys := List.mem_map_of_mem hmem
    have hsame : key' = key := by
      refine key_of_token (haccepted.named key' ?_) (haccepted.named key ?_) htoken' htoken
      · rw [hkeys]
        exact mem_append_left _ hmem'
      · rw [hkeys]
        exact mem_append_right _ (mem_singleton.2 rfl)
    have hnodup := haccepted.nodup
    rw [hkeys] at hnodup
    rw [hsame] at hmem'
    exact absurd (mem_singleton.2 rfl) (disjoint_of_nodup_append hnodup hmem')

variable {pieces : List (Template.Piece UInt8)} {tokens : Set Bytes} (htokens : Template.Tokens 0x24 tokens)
  (hclean : Template.Clean tokens pieces)

include htokens hclean

theorem replaceVariable_render (haccepted : Accepted (done ++ [(key, value)]))
    (hvalues : ∀ entry ∈ done ++ [(key, value)], (0x24 : UInt8) ∉ entry.2)
    (hmem : dollarToken key ∈ tokens ∧ braceToken key ∈ tokens) :
    replaceVariable (Template.render done.value pieces) (key, value) =
      Template.render (done ++ [(key, value)]).value pieces := by
  have hdone : ∀ token other, done.value token = some other → (0x24 : UInt8) ∉ other := by
    intro token other hother
    obtain ⟨key', hin, _⟩ := (value_eq_some_iff haccepted.of_append).1 hother
    exact hvalues (key', other) (mem_append_left _ hin)
  have hnew : (0x24 : UInt8) ∉ value := hvalues (key, value) (mem_append_right _ (mem_singleton.2 rfl))
  have hdiffer : dollarToken key ≠ braceToken key := by
    intro heq
    have hkey : variablePrefix <+: key := haccepted.named key (by simp [BuildVars.keys])
    exact (dollar_brace_apart hkey key).1 (heq ▸ prefix_rfl)
  rw [replaceVariable, Template.replaceAll_render htokens hdone hmem.2 (value_none haccepted (.inr rfl)) value hclean]
  rw [Template.replaceAll_render htokens ?_ hmem.1 ?_ value hclean]
  · congr 1
    funext token
    rw [value_concat]
    by_cases hdollar : token = dollarToken key
    · rw [if_pos hdollar, value_none haccepted (.inl hdollar), if_pos (.inl hdollar), Option.none_or]
    · by_cases hbrace : token = braceToken key
      · rw [if_neg hdollar, if_pos hbrace, value_none haccepted (.inr hbrace), if_pos (.inr hbrace),
          Option.none_or]
      · rw [if_neg hdollar, if_neg hbrace, if_neg (not_or.2 ⟨hdollar, hbrace⟩), Option.or_none]
  · intro token other hother
    split at hother
    · exact Option.some.inj hother ▸ hnew
    · exact hdone token other hother
  · rw [if_neg hdiffer]
    exact value_none haccepted (.inl rfl)

theorem foldl_render (rest : BuildVars) (haccepted : Accepted (done ++ rest))
    (hvalues : ∀ entry ∈ done ++ rest, (0x24 : UInt8) ∉ entry.2) (hmem : ∀ token ∈ rest.tokens, token ∈ tokens) :
    rest.foldl replaceVariable (Template.render done.value pieces) =
      Template.render (done ++ rest).value pieces := by
  induction rest generalizing done with
  | nil => rw [append_nil, foldl_nil]
  | cons entry rest ih =>
    obtain ⟨key, value⟩ := entry
    have hsplit : done ++ (key, value) :: rest = (done ++ [(key, value)]) ++ rest := by
      rw [append_assoc, singleton_append]
    rw [hsplit] at haccepted hvalues ⊢
    rw [foldl_cons, replaceVariable_render htokens hclean haccepted.of_append]
    · refine ih haccepted hvalues fun token htoken => hmem token ?_
      obtain ⟨other, hother, heq⟩ := mem_tokens.1 htoken
      exact mem_tokens.2 ⟨other, mem_cons_of_mem _ hother, heq⟩
    · intro entry hentry
      exact hvalues entry (mem_append_left _ hentry)
    · have hfirst : key ∈ BuildVars.keys ((key, value) :: rest) := mem_cons_self
      exact ⟨hmem _ (mem_tokens.2 ⟨key, hfirst, .inl rfl⟩), hmem _ (mem_tokens.2 ⟨key, hfirst, .inr rfl⟩)⟩

end Loop

theorem foldl_replaceVariable {vars order : BuildVars} {raw : Bytes} (haccepted : Accepted vars)
    (horder : order.Perm vars) (hdist : distinguishable vars = true) (hdetached : detached vars raw = true) :
    order.foldl replaceVariable raw = substitute vars raw := by
  have htokens := tokens_of_distinguishable haccepted hdist
  have hreads := readReference_reads vars
  have hclean := Template.clean_parse htokens hreads (detached_of_check hdetached)
  have hstart : raw = Template.render (BuildVars.value []) (Template.parse (readReference vars) raw) :=
    (Template.render_parse htokens hreads raw).symm
  have hvalues : ∀ entry ∈ order, (0x24 : UInt8) ∉ entry.2 := by
    intro entry hentry
    exact values_of_distinguishable hdist entry (horder.mem_iff.1 hentry)
  have hmem : ∀ token ∈ order.tokens, token ∈ {token | token ∈ vars.tokens} := by
    intro token htoken
    obtain ⟨key, hkey, heq⟩ := mem_tokens.1 htoken
    exact mem_tokens.2 ⟨key, (horder.map Prod.fst).mem_iff.1 hkey, heq⟩
  have hloop : order.foldl replaceVariable
      (Template.render (BuildVars.value []) (Template.parse (readReference vars) raw)) =
        Template.render (BuildVars.value ([] ++ order)) (Template.parse (readReference vars) raw) :=
    foldl_render htokens hclean order (haccepted.perm horder) hvalues hmem
  rw [← hstart, nil_append, value_perm haccepted horder] at hloop
  exact hloop

theorem checkResolved_perm {vars order : BuildVars} (horder : order.Perm vars) (path content : Bytes) :
    checkResolved path order content = checkResolved path vars content := by
  have hkeys : order.keys.Perm vars.keys := horder.map Prod.fst
  have hcontains : ∀ token, order.keys.contains token = vars.keys.contains token := by
    intro token
    rw [Bool.eq_iff_iff, contains_iff_mem, contains_iff_mem, hkeys.mem_iff]
  simp only [checkResolved, hcontains]

def registryVars : BuildVars :=
  [(ascii "BUILDCTL_BATCH_REGISTRY", ascii "r.io"), (ascii "BUILDCTL_BATCH_TAG", ascii "v1=debug")]

/-! ### References that are left -/

def closed (vars : BuildVars) (content : Bytes) : Bool :=
  content.tails.all fun s => vars.keys.all fun key =>
    !hasPrefix s (ascii "$\x7b" ++ key) || (match s.drop (2 + key.length) with
      | b :: _ => nameByte b || b == 0x7D
      | [] => false)

variable {length : Nat} {name s : Bytes}

theorem pattern_inv (hmatch : buildctlBatchVarPattern s = some (name, length)) :
    variablePrefix <+: name ∧ ∃ tail, (s = 0x24 :: (name ++ tail) ∨ s = 0x24 :: 0x7B :: (name ++ tail)) ∧
      ∀ b more, tail = b :: more → nameByte b = false := by
  unfold buildctlBatchVarPattern at hmatch
  split at hmatch
  · rename_i s
    have hdrop : s = s.drop (if s.head? = some 0x7B then 1 else 0) ∨
        s = 0x7B :: s.drop (if s.head? = some 0x7B then 1 else 0) := by
      by_cases hbrace : s.head? = some 0x7B
      · rw [if_pos hbrace]
        cases s with
        | nil => cases hbrace
        | cons b s =>
          cases hbrace
          exact .inr rfl
      · rw [if_neg hbrace]
        exact .inl rfl
    dsimp only at hmatch
    generalize s.drop (if s.head? = some 0x7B then 1 else 0) = rest at hmatch hdrop
    by_cases hfound : (hasPrefix rest variablePrefix &&
        !((rest.drop variablePrefix.length).takeWhile nameByte).isEmpty) = true
    · rw [if_pos hfound] at hmatch
      obtain ⟨rfl, _⟩ := Prod.mk.inj (Option.some.inj hmatch)
      rw [Bool.and_eq_true] at hfound
      obtain ⟨more, rfl⟩ := isPrefixOf_iff_prefix.1 hfound.1
      refine ⟨prefix_append _ _, more.dropWhile nameByte, ?_, ?_⟩
      · rw [drop_left, append_assoc, takeWhile_append_dropWhile]
        exact hdrop.imp (congrArg (0x24 :: ·)) (congrArg (0x24 :: ·))
      · intro b later htail
        have hhead := head?_dropWhile_not (p := nameByte) more
        rw [htail] at hhead
        simpa using hhead
    · rw [if_neg hfound] at hmatch
      cases hmatch
  · cases hmatch

theorem mem_unresolvedFrom {n : Nat} (hname : name ∈ unresolvedFrom n s) :
    ∃ rest length, rest <:+ s ∧ buildctlBatchVarPattern rest = some (name, length) := by
  fun_induction unresolvedFrom n s with
  | case1 n => cases hname
  | case2 n b s ih =>
    obtain ⟨rest, length, hsuf, hmatch⟩ := ih hname
    exact ⟨rest, length, hsuf.trans (suffix_cons _ _), hmatch⟩
  | case3 b s found length hmatch ih =>
    rcases mem_cons.1 hname with rfl | hlater
    · exact ⟨b :: s, length, suffix_rfl, hmatch⟩
    · obtain ⟨rest, length', hsuf, hmatch'⟩ := ih hlater
      exact ⟨rest, length', hsuf.trans (suffix_cons _ _), hmatch'⟩
  | case4 b s hmatch ih =>
    obtain ⟨rest, length, hsuf, hmatch'⟩ := ih hname
    exact ⟨rest, length, hsuf.trans (suffix_cons _ _), hmatch'⟩

theorem no_match_of_nil (hnil : unresolvedFrom 0 s = []) :
    ∀ rest, rest <:+ s → buildctlBatchVarPattern rest = none := by
  induction s with
  | nil =>
    intro rest hsuf
    rw [suffix_nil.1 hsuf]
    rfl
  | cons b s ih =>
    rw [unresolvedFrom] at hnil
    split at hnil
    · cases hnil
    · rename_i hmatch
      intro rest hsuf
      rcases suffix_cons_iff.1 hsuf with rfl | hsuf
      · exact hmatch
      · exact ih hnil rest hsuf

section Left

variable {vars : BuildVars} {pieces : List (Template.Piece UInt8)}

theorem closed_suffix {t : Bytes} (hclosed : closed vars s = true) (hsuf : t <:+ s) : closed vars t = true := by
  rw [closed, List.all_eq_true] at hclosed ⊢
  intro u hu
  exact hclosed u ((mem_tails _ _).2 (((mem_tails _ _).1 hu).trans hsuf))

theorem next_of_closed {key : Bytes} {more : Bytes} (hclosed : closed vars s = true) (hkey : key ∈ vars.keys)
    (hs : s = 0x24 :: 0x7B :: (key ++ more)) :
    ∃ b later, more = b :: later ∧ (nameByte b = true ∨ b = 0x7D) := by
  have hself := List.all_eq_true.1 (List.all_eq_true.1 hclosed s ((mem_tails _ _).2 suffix_rfl)) key hkey
  have hpre : hasPrefix s (ascii "$\x7b" ++ key) = true := by
    rw [hs]
    exact isPrefixOf_iff_prefix.2 ⟨more, rfl⟩
  have hdrop : s.drop (2 + key.length) = more := by
    rw [hs, Nat.add_comm]
    exact drop_left
  rw [hpre, hdrop] at hself
  cases more with
  | nil => cases hself
  | cons b later =>
    refine ⟨b, later, rfl, ?_⟩
    simpa using hself

theorem no_match_at_letter {b : UInt8}
    (hclean : Template.Clean {token | token ∈ vars.tokens} (.letter b :: pieces))
    (hclosed : closed vars (b :: Template.render (fun _ => none) pieces) = true) (hname : name ∈ vars.keys) :
    buildctlBatchVarPattern (b :: Template.render vars.value pieces) ≠ some (name, length) := by
  intro hmatch
  have hdollar : dollarToken name ∈ {token | token ∈ vars.tokens} := mem_tokens.2 ⟨name, hname, .inl rfl⟩
  have hbrace : braceToken name ∈ {token | token ∈ vars.tokens} := mem_tokens.2 ⟨name, hname, .inr rfl⟩
  obtain ⟨_, tail, htext | htext, htail⟩ := pattern_inv hmatch
  · refine hclean.no_token vars.value hdollar ?_
    rw [htext]
    exact ⟨tail, rfl⟩
  · have hopen : braceToken name = (0x24 :: 0x7B :: name) ++ [0x7D] := rfl
    obtain ⟨more, hrender, hmore⟩ := Template.render_lead vars.value pieces
    obtain ⟨more', hrender', hmore'⟩ := Template.render_lead (fun _ => none) pieces
    have hinside : (0x24 :: 0x7B :: name) <+: b :: Template.lead pieces := by
      have hpre : (0x24 :: 0x7B :: name) <+: (b :: Template.lead pieces) ++ more := by
        rw [cons_append, ← hrender, htext]
        exact ⟨tail, rfl⟩
      by_cases hmarked : Template.marked pieces
      · rcases prefix_or_prefix_of_prefix hpre (prefix_append _ _) with hle | hle
        · exact hle
        · refine absurd (hle.trans ?_) ((hclean.1 _ hbrace).2 hmarked)
          rw [hopen]
          exact prefix_append _ _
      · rw [hmore hmarked, append_nil] at hpre
        exact hpre
    obtain ⟨between, hbetween⟩ := hinside
    -- The byte behind the name is the same in the file and in the result, or a mark follows.
    have hraw : b :: Template.render (fun _ => none) pieces = 0x24 :: 0x7B :: (name ++ (between ++ more')) := by
      rw [hrender', ← cons_append, ← hbetween, append_assoc]
      rfl
    obtain ⟨c, later, hnext, hc⟩ := next_of_closed hclosed hname hraw
    cases between with
    | nil =>
      have hmarked : Template.marked pieces := by
        by_contra hno
        rw [hmore' hno] at hnext
        cases hnext
      refine (hclean.1 _ hbrace).2 hmarked ?_
      rw [← hbetween, append_nil, hopen]
      exact prefix_append _ _
    | cons d between =>
      obtain ⟨rfl, _⟩ := List.cons.inj hnext
      have htext' : 0x24 :: 0x7B :: (name ++ (d :: between ++ more)) = 0x24 :: 0x7B :: (name ++ tail) := by
        have hsame : b :: Template.render vars.value pieces = (b :: Template.lead pieces) ++ more :=
          congrArg (b :: ·) hrender
        rw [← htext, hsame, ← hbetween, append_assoc]
        rfl
      have htail' : tail = d :: (between ++ more) :=
        (append_cancel_left (List.cons.inj (List.cons.inj htext').2).2).symm
      rcases hc with hc | rfl
      · rw [htail d _ htail'] at hc
        cases hc
      · refine hclean.no_token vars.value hbrace ?_
        rw [htext, htail', hopen]
        exact ⟨between ++ more, by simp⟩

theorem no_match_in_render (hclean : Template.Clean {token | token ∈ vars.tokens} pieces)
    (hvalues : ∀ token ∈ vars.tokens, ∃ value, vars.value token = some value ∧ (0x24 : UInt8) ∉ value)
    (hclosed : closed vars (Template.render (fun _ => none) pieces) = true) {rest : Bytes}
    (hrest : rest <:+ Template.render vars.value pieces) (hname : name ∈ vars.keys) :
    buildctlBatchVarPattern rest ≠ some (name, length) := by
  induction pieces with
  | nil =>
    rw [suffix_nil.1 hrest]
    intro hmatch
    cases hmatch
  | cons piece pieces ih =>
    cases piece with
    | letter b =>
      have hlater : closed vars (Template.render (fun _ => none) pieces) = true :=
        closed_suffix hclosed (suffix_cons b _)
      rcases suffix_cons_iff.1 hrest with heq | hsuf
      · rw [heq]
        exact no_match_at_letter hclean hclosed hname
      · exact ih hclean.2 hlater hsuf
    | mark token =>
      have hlater : closed vars (Template.render (fun _ => none) pieces) = true :=
        closed_suffix hclosed (suffix_append token _)
      obtain ⟨value, hvalue, hfree⟩ := hvalues token hclean.1
      have hrest' : rest <:+ value ++ Template.render vars.value pieces := by
        have htext : Template.render vars.value (.mark token :: pieces) =
            (vars.value token).getD token ++ Template.render vars.value pieces := rfl
        rw [htext, hvalue] at hrest
        exact hrest
      by_cases hshort : rest <:+ Template.render vars.value pieces
      · exact ih hclean.2 hlater hshort
      · -- It begins inside the value, which has no dollar sign.
        intro hmatch
        obtain ⟨front, hfront⟩ := hrest'
        rcases append_eq_append_iff.1 hfront with ⟨mid, hvalue', hmid⟩ | ⟨mid, _, hmid⟩
        · obtain ⟨_, tail, htext, _⟩ := pattern_inv hmatch
          cases mid with
          | nil => exact hshort (hmid ▸ suffix_rfl)
          | cons b mid =>
            have hb : b = 0x24 := by
              rcases htext with htext | htext
              · exact (List.cons.inj (hmid.symm.trans htext)).1
              · exact (List.cons.inj (hmid.symm.trans htext)).1
            refine hfree ?_
            rw [hvalue', hb]
            exact mem_append_right _ mem_cons_self
        · exact hshort ⟨mid, hmid.symm⟩

end Left

end BuildkitService.Batch
