import BuildkitService.Batch.LatestLogs

/-!
# The line of a failure

A failure whose line is longer than the limit is cut: `truncateFailureLogPayload` searches for a
number of bytes of the log that fits with the suffix behind them.
-/

namespace Json

open List

theorem escape_suffix {c : UInt8} (hc : c < 0x80) (s t : Bytes) (skip keep : Nat) (hskip : skip ≤ s.length)
    (hkeep : keep ≤ s.length) (hmode : skip = 0 ∨ keep = 0) :
    escape 0 0 (c :: t) <:+ escape skip keep (s ++ c :: t) := by
  have hbefore {s : Bytes} {n : Nat} (hhigh : ∀ b ∈ (s ++ c :: t).take n, 0x80 ≤ b) : n ≤ s.length := by
    by_contra hlong
    refine UInt8.not_le.2 hc (hhigh c ?_)
    rw [take_append, take_of_length_le (by omega), take_cons (by omega)]
    simp
  induction s generalizing skip keep with
  | nil =>
    obtain ⟨rfl, rfl⟩ : skip = 0 ∧ keep = 0 := ⟨Nat.le_zero.1 hskip, Nat.le_zero.1 hkeep⟩
    exact suffix_rfl
  | cons b s ih =>
    rw [length_cons] at hskip hkeep
    cases skip with
    | succ skip =>
      obtain rfl : keep = 0 := by omega
      exact ih skip 0 (by omega) (by omega) (.inr rfl)
    | zero =>
      cases keep with
      | succ keep => exact (ih 0 keep (by omega) (by omega) (.inl rfl)).trans (suffix_cons b _)
      | zero =>
        have hseparator {x y : UInt8} (hx : 0x80 ≤ x) (hy : 0x80 ≤ y) (htake : b :: (s ++ c :: t).take 2 = [0xE2, x, y]) :
            2 ≤ s.length := by
          refine hbefore fun a ha => ?_
          rw [(List.cons.inj htake).2] at ha
          rcases mem_cons.1 ha with rfl | ha
          · exact hx
          · rw [mem_singleton.1 ha]
            exact hy
        rw [cons_append]
        nth_rewrite 2 [escape]
        split
        · exact (ih 0 0 (by omega) (by omega) (.inl rfl)).trans (suffix_append _ _)
        · split
          · exact (ih 0 0 (by omega) (by omega) (.inl rfl)).trans (suffix_append _ _)
          · rename_i n htail
            split
            · rename_i htake
              exact (ih 2 0 (hseparator (by decide) (by decide) htake) (by omega) (.inr rfl)).trans (suffix_append _ _)
            · split
              · rename_i htake
                exact (ih 2 0 (hseparator (by decide) (by decide) htake) (by omega) (.inr rfl)).trans
                  (suffix_append _ _)
              · exact (ih 0 n (by omega) (hbefore (runeTail_high htail)) (.inl rfl)).trans (suffix_cons _ _)

end Json

namespace BuildkitService.Batch

open List

variable {maxSize : Nat} {target logs : Bytes}

/-! ### The search -/

theorem fits_suffix {front : Bytes} (hfits : FailureLogEntry.fits maxSize ⟨target, false, front ++ truncatedFailureLogSuffix⟩ = true) :
    FailureLogEntry.fits maxSize ⟨target, false, truncatedFailureLogSuffix⟩ = true := by
  have hle : (Json.escape 0 0 truncatedFailureLogSuffix).length ≤ (Json.escape 0 0 (front ++ truncatedFailureLogSuffix)).length :=
    (Json.escape_suffix (by decide) front _ 0 0 (Nat.zero_le _) (Nat.zero_le _) (.inl rfl)).length_le
  simp only [FailureLogEntry.fits, FailureLogEntry.marshal, Json.string, length_append, decide_eq_true_eq] at hfits ⊢
  omega

def FittingCut (maxSize : Nat) (target logs cut : Bytes) : Prop :=
  ∃ k ≤ logs.length, cut = logs.take k ++ truncatedFailureLogSuffix ∧ FailureLogEntry.fits maxSize ⟨target, false, cut⟩ = true

def truncatePass (maxSize : Nat) (target logs : Bytes) : Nat × Nat × Bytes → Option (Nat × Nat × Bytes)
  | (low, stop, best) =>
      if low < stop then
        let mid := low + (stop - 1 - low) / 2
        let candidate := logs.take mid ++ truncatedFailureLogSuffix
        some (if FailureLogEntry.fits maxSize ⟨target, false, candidate⟩ then (mid + 1, stop, candidate) else (low, mid, best))
      else none

variable {low stop low' stop' : Nat} {best best' : Bytes}

theorem truncateLoop_succ (passes low stop : Nat) (best : Bytes) :
    truncateLoop maxSize target logs (passes + 1) low stop best =
      match truncatePass maxSize target logs (low, stop, best) with
      | none => best
      | some (low, stop, best) => truncateLoop maxSize target logs passes low stop best := by
  rw [truncateLoop, truncatePass]
  dsimp only
  split_ifs <;> rfl

theorem truncatePass_next (hpass : truncatePass maxSize target logs (low, stop, best) = some (low', stop', best'))
    (hstop : stop ≤ logs.length + 1) :
    stop' - low' < stop - low ∧ stop' ≤ stop ∧ (best' = best ∨ FittingCut maxSize target logs best') := by
  rw [truncatePass] at hpass
  split at hpass
  · dsimp only at hpass
    split at hpass
    · rename_i hfits
      cases hpass
      exact ⟨by omega, le_rfl, .inr ⟨_, by omega, rfl, hfits⟩⟩
    · cases hpass
      exact ⟨by omega, by omega, .inl rfl⟩
  · cases hpass

theorem truncateLoop_ends (maxSize : Nat) (target : Bytes) (passes : Nat) (hpasses : stop - low ≤ passes)
    (hstop : stop ≤ logs.length + 1) (hbest : best = [] ∨ FittingCut maxSize target logs best) :
    ∃ n ≤ stop - low, ∃ last, (·.bind (truncatePass maxSize target logs))^[n] (some (low, stop, best)) = some last ∧
      truncatePass maxSize target logs last = none ∧
      truncateLoop maxSize target logs passes low stop best = last.2.2 ∧
      (last.2.2 = [] ∨ FittingCut maxSize target logs last.2.2) := by
  induction passes generalizing low stop best with
  | zero =>
    refine ⟨0, Nat.zero_le _, _, rfl, ?_, rfl, hbest⟩
    rw [truncatePass, if_neg (by omega)]
  | succ passes ih =>
    rw [truncateLoop_succ]
    cases hpass : truncatePass maxSize target logs (low, stop, best) with
    | none => exact ⟨0, Nat.zero_le _, _, rfl, hpass, rfl, hbest⟩
    | some next =>
      obtain ⟨low', stop', best'⟩ := next
      obtain ⟨hless, hle, hcut⟩ := truncatePass_next hpass hstop
      have hbest' : best' = [] ∨ FittingCut maxSize target logs best' := by
        rcases hcut with rfl | hcut
        · exact hbest
        · exact .inr hcut
      have hfewer : stop' - low' ≤ passes := by omega
      obtain ⟨n, hn, last, hlast, hleft⟩ := ih hfewer (hle.trans hstop) hbest'
      refine ⟨n + 1, by omega, last, ?_, hleft⟩
      rw [Function.iterate_succ_apply, Option.bind_some, hpass]
      exact hlast

/-! ### The line -/

theorem truncateFailureLogPayload_cases (maxSize : Nat) (target logs : Bytes) :
    (∃ cut, truncateFailureLogPayload maxSize target logs = .ok cut ∧ FittingCut maxSize target logs cut) ∨
      (∃ err, truncateFailureLogPayload maxSize target logs = .error err) ∧
        FailureLogEntry.fits maxSize ⟨target, false, truncatedFailureLogSuffix⟩ = false := by
  obtain ⟨_, _, last, _, _, hloop, hlast⟩ := truncateLoop_ends maxSize target (logs.length + 1)
    (show logs.length + 1 - 0 ≤ logs.length + 1 from le_rfl) le_rfl (.inl (Eq.refl []))
  rw [truncateFailureLogPayload, hloop]
  split_ifs with hbest hfits
  · exact .inl ⟨_, rfl, hlast.resolve_left hbest⟩
  · exact .inr ⟨⟨_, rfl⟩, by simpa using hfits⟩
  · exact .inl ⟨_, rfl, 0, Nat.zero_le _, rfl, by simpa using hfits⟩

/-- A line is as long as the limit allows, and encodes its entry. -/
theorem failure_line_encodes (maxSize : Nat) (target logs : Bytes) :
    (∀ line, marshalFailureLogLine maxSize ⟨target, false, logs⟩ = .ok line →
      line.length ≤ maxSize ∧ Lines.IsLine Json.newline line ∧
      ∃ written, line = FailureLogEntry.line ⟨target, false, written⟩ ∧
        if FailureLogEntry.fits maxSize ⟨target, false, logs⟩ then written = logs
        else ∃ k ≤ logs.length, written = logs.take k ++ truncatedFailureLogSuffix) ∧
    ((∃ err, marshalFailureLogLine maxSize ⟨target, false, logs⟩ = .error err) ↔
      FailureLogEntry.fits maxSize ⟨target, false, logs⟩ = false ∧
      FailureLogEntry.fits maxSize ⟨target, false, truncatedFailureLogSuffix⟩ = false) ∧
    ∃ n ≤ logs.length + 1, ∃ last,
      (·.bind (truncatePass maxSize target logs))^[n] (some (0, logs.length + 1, [])) = some last ∧
      truncatePass maxSize target logs last = none ∧
      truncateLoop maxSize target logs (logs.length + 1) 0 (logs.length + 1) [] = last.2.2 := by
  refine ⟨?_, ?_, ?_⟩
  · intro line hline
    rw [marshalFailureLogLine] at hline
    split_ifs at hline ⊢ with hfits
    · cases hline
      exact ⟨(marshal_line hfits).2, (marshal_line hfits).1, logs, rfl, rfl⟩
    · rcases truncateFailureLogPayload_cases maxSize target logs with ⟨cut, hcut, k, hk, rfl, hshort⟩ | ⟨⟨err, herr⟩, _⟩
      · rw [hcut] at hline
        simp only [hshort, Bool.not_true, Bool.false_eq_true, if_false] at hline
        cases hline
        exact ⟨(marshal_line hshort).2, (marshal_line hshort).1, _, rfl, k, hk, rfl⟩
      · rw [herr] at hline
        cases hline
  · rw [marshalFailureLogLine]
    split_ifs with hfits
    · refine iff_of_false (by rintro ⟨err, herr⟩; cases herr) fun hneither => ?_
      exact absurd hfits (by rw [hneither.1]; exact Bool.false_ne_true)
    · rcases truncateFailureLogPayload_cases maxSize target logs with ⟨cut, hcut, k, hk, rfl, hshort⟩ | ⟨⟨err, herr⟩, hlong⟩
      · rw [hcut]
        simp only [hshort, Bool.not_true, Bool.false_eq_true, if_false]
        refine iff_of_false (by rintro ⟨err, herr⟩; cases herr) fun hneither => ?_
        rw [fits_suffix hshort] at hneither
        cases hneither.2
      · rw [herr]
        exact iff_of_true ⟨err, rfl⟩ ⟨Bool.eq_false_iff.2 hfits, hlong⟩
  · obtain ⟨n, hn, last, hlast, hleft, hloop, _⟩ := truncateLoop_ends maxSize target (logs.length + 1)
      (show logs.length + 1 - 0 ≤ logs.length + 1 from le_rfl) le_rfl (Or.inl (Eq.refl []))
    exact ⟨n, hn, last, hlast, hleft, hloop⟩

theorem short_log_has_line :
    FailureLogEntry.fits 42 ⟨ascii "t", false, truncatedFailureLogSuffix⟩ = false ∧
      marshalFailureLogLine 42 ⟨ascii "t", false, ascii "x"⟩ = .ok (FailureLogEntry.line ⟨ascii "t", false, ascii "x"⟩) := by
  refine ⟨by decide +kernel, ?_⟩
  rw [marshalFailureLogLine, if_pos (by decide +kernel)]
  rfl

end BuildkitService.Batch
