import BuildkitService.Dockerfile.Frame

/-!
# The rewritten Dockerfile is not longer

A legacy header is `RUN cat > target <<EOF`, over one or more lines; what replaces it is `COPY <<EOF
target`.
-/

namespace BuildkitService.Dockerfile

open Strings List Ledger

/-! ### Trimming -/

theorem asciiSpace_of_isBlank {b : UInt8} (hb : isBlank b = true) : asciiSpace b = true := by
  rw [isBlank, Bool.or_eq_true, beq_iff_eq, beq_iff_eq] at hb
  rcases hb with rfl | rfl
  · rfl
  · rfl

theorem trimLeftSpace_length (s : Bytes) : (leadingBlanks s).length + (trimLeftSpace s).length ≤ s.length := by
  have hblanks : ∀ a ∈ leadingBlanks s, asciiSpace a = true := fun a ha => asciiSpace_of_isBlank (mem_takeWhile_imp ha)
  have hsplit : leadingBlanks s ++ s.dropWhile isBlank = s := takeWhile_append_dropWhile
  calc (leadingBlanks s).length + (trimLeftSpace s).length
      = (leadingBlanks s).length + (trimLeftSpace (s.dropWhile isBlank)).length := by
        rw [← trimLeftSpace_spaces hblanks (s.dropWhile isBlank), hsplit]
    _ ≤ (leadingBlanks s).length + (s.dropWhile isBlank).length :=
        Nat.add_le_add_left (trimLeftSpace_suffix _).length_le _
    _ = s.length := by rw [← length_append, hsplit]

theorem toUpper_length (s : Bytes) : (toUpper s).length ≤ s.length := by
  fun_induction toUpper s <;> simp_all <;> omega

theorem trimSpace_length (s : Bytes) : (leadingBlanks s).length + (trimSpace s).length ≤ s.length := by
  have hright := length_trimRightSpace_le (trimLeftSpace s)
  have hleft := trimLeftSpace_length s
  rw [trimSpace]
  omega

theorem trimRight_length (s cutset : Bytes) : (trimRight s cutset).length ≤ s.length :=
  (List.rdropWhile_prefix _ s).length_le

/-! ### Headers -/

variable {plain : Bytes} {start stop : Nat} {lines : List Bytes}

theorem normalize_length {instruction command : Bytes}
    (hsplit : splitInstruction plain = (instruction, command)) (hcommand : command ≠ []) :
    (normalize plain instruction command).length ≤ plain.length := by
  have htrim := trimSpace_length plain
  have hagain := trimSpace_length command
  unfold splitInstruction at hsplit
  dsimp only at hsplit
  cases hindex : indexAny (trimSpace plain) blanks with
  | none =>
    rw [hindex] at hsplit
    exact absurd (Prod.mk.inj hsplit).2.symm hcommand
  | some pos =>
    rw [hindex] at hsplit
    obtain ⟨rfl, rfl⟩ := Prod.mk.inj hsplit
    have hpos : pos < (trimSpace plain).length := (findIdx?_eq_some_iff_getElem.1 hindex).1
    have hword := toUpper_length ((trimSpace plain).take pos)
    have hrest := trimSpace_length ((trimSpace plain).drop (pos + 1))
    rw [length_take] at hword
    rw [length_drop] at hrest
    have hspace : (ascii " ").length = 1 := rfl
    rw [normalize_eq]
    simp only [length_append, hspace]
    omega

theorem joinHeader_length {escape : UInt8} (rest : List Bytes) {stop' : Nat} {header : Bytes}
    (hjoin : joinHeader escape start rest stop header = (plain, stop')) :
    stop ≤ stop' + 1 ∧ plain.length ≤ header.length + ((rest.take (stop' + 1 - stop)).flatten).length := by
  induction rest generalizing stop header with
  | nil =>
    obtain ⟨rfl, rfl⟩ := Prod.mk.inj hjoin
    exact ⟨by omega, Nat.le_add_right _ _⟩
  | cons raw rest ih =>
    have hline := trimRight_length raw (ascii "\r\n")
    have htrimmed := trimRight_length (trimRight raw (ascii "\r\n")) blanks
    -- the lines up to the last one are the first and those of the rest
    have htake : stop + 1 ≤ stop' + 1 →
        (raw :: rest).take (stop' + 1 - stop) = raw :: rest.take (stop' + 1 - (stop + 1)) := by
      intro hle
      have hcount : stop' + 1 - stop = stop' + 1 - (stop + 1) + 1 := by omega
      rw [hcount, take_succ_cons]
    rw [joinHeader] at hjoin
    dsimp only at hjoin
    split_ifs at hjoin with hcomment hfirst hmore
    · obtain ⟨rfl, rfl⟩ := Prod.mk.inj hjoin
      rw [htake le_rfl, flatten_cons, length_append]
      omega
    · obtain ⟨hstop, hlength⟩ := ih hjoin
      rw [htake hstop, flatten_cons, length_append]
      omega
    · obtain ⟨hstop, hlength⟩ := ih hjoin
      rw [length_append, length_dropLast] at hlength
      rw [htake hstop, flatten_cons, length_append]
      omega
    · obtain ⟨rfl, rfl⟩ := Prod.mk.inj hjoin
      rw [htake le_rfl, flatten_cons, length_append, length_append]
      omega

theorem instructionHeader_length {escape : UInt8}
    (hheader : instructionHeader lines start escape = (plain, stop)) :
    plain.length ≤ (slice lines start (stop + 1)).flatten.length := by
  have hjoin := (joinHeader_length _ hheader).2
  rwa [length_nil, Nat.zero_add, ← drop_take] at hjoin

/-! ### The patterns -/

theorem copyHeader_length (spec : LegacyHeredocSpec) :
    (copyHeader spec).length = spec.indent.length + spec.delimiterToken.length + spec.target.length + 9 := by
  have hkeyword : (ascii "COPY <<").length = 7 := rfl
  have hspace : (ascii " ").length = 1 := rfl
  have hend : (ascii "\n").length = 1 := rfl
  simp only [copyHeader, length_append, hkeyword, hspace, hend]
  omega

theorem parseLegacyCatHeredoc_length {line : Bytes} {lineNumber : Nat} {spec : LegacyHeredocSpec}
    (hparse : parseLegacyCatHeredoc line lineNumber = .ok (some spec)) :
    (copyHeader spec).length + 4 ≤ line.length := by
  rw [parseLegacyCatHeredoc] at hparse
  rw [copyHeader_length]
  split at hparse
  · rename_i hmatch
    have hlength := LinearRegex.matchItems_length hmatch
    have hleast : total LinearRegex.Item.least runCatRedirectHeredocPattern = 13 := rfl
    split_ifs at hparse
    rw [← Option.some.inj (Except.ok.inj hparse)]
    simp only [hleast, total_cons, total_nil] at hlength
    simp only [length_append]
    omega
  · split at hparse
    · rename_i hmatch
      have hlength := LinearRegex.matchItems_length hmatch
      have hleast : total LinearRegex.Item.least runCatHeredocRedirectPattern = 13 := rfl
      split_ifs at hparse
      rw [← Option.some.inj (Except.ok.inj hparse)]
      simp only [hleast, total_cons, total_nil] at hlength
      simp only [length_append]
      omega
    · cases hparse

theorem IsLegacyHeader.length {spec : LegacyHeredocSpec} (hlegacy : IsLegacyHeader lines start stop spec) :
    (copyHeader spec).length ≤ (slice lines start (stop + 1)).flatten.length := by
  obtain ⟨escape, plain, command, hheader, hsplit, hindent, hparse⟩ := hlegacy
  have hread := parseLegacyCatHeredoc_length hparse
  have hcommand : command ≠ [] := by
    rintro rfl
    have hshort : (normalize plain (ascii "RUN") []).length = (leadingBlanks plain).length + 4 := by
      rw [normalize_eq, length_append]
      rfl
    have hcopy := copyHeader_length spec
    rw [hindent] at hcopy
    omega
  have hnormal := normalize_length hsplit hcommand
  have hplain := instructionHeader_length hheader
  omega

/-! ### The whole file -/

theorem replaceRanges_length {limit : Nat} (rws : List Rewrite) {pos : Nat} (hplaced : Placed limit pos rws)
    (hshorter : ∀ rw ∈ rws, (copyHeader rw.spec).length ≤ (slice lines rw.start (rw.stop + 1)).flatten.length) :
    (replaceRanges lines limit pos rws).flatten.length ≤ (slice lines pos limit).flatten.length := by
  induction rws generalizing pos with
  | nil => exact le_rfl
  | cons rw rws ih =>
    obtain ⟨hpos, hrange, hrest⟩ := hplaced
    obtain ⟨hfirst, hlater⟩ := forall_mem_cons.1 hshorter
    have htail := ih hrest hlater
    have hsplit : slice lines pos limit =
        slice lines pos rw.start ++ slice lines rw.start (rw.stop + 1) ++ slice lines (rw.stop + 1) limit := by
      rw [slice_append hpos (by omega), slice_append (by omega) hrest.le]
    rw [hsplit, replaceRanges]
    simp only [flatten_append, length_append, flatten_cons, flatten_nil, append_nil]
    omega

theorem transform_length {fe : Frontend} {raw out : Bytes} {changed : Bool}
    (hok : transformLegacyHeredocs fe raw = .ok (out, changed)) : out.length ≤ raw.length := by
  obtain ⟨st, hidx, hframed, _, hout⟩ := transform_framed fe hok
  have hlength := replaceRanges_length (rewrites fe raw) hframed.placed fun rw hrw => (hframed.headers rw hrw).length
  rwa [← hframed.out, ← hout, hidx, slice_length, splitDockerfileLines_flatten] at hlength

end BuildkitService.Dockerfile
