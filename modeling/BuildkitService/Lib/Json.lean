import BuildkitService.Lib.Strings

/-!
# Strings in JSON

How `json.Marshal` writes a string.
-/

namespace Json

open Strings List Option

def escapeByte (b : UInt8) : Bytes :=
  if b == 0x22 || b == 0x5C then [0x5C, b]
  else if b == 0x08 then ascii "\\b"
  else if b == 0x0C then ascii "\\f"
  else if b == 0x0A then ascii "\\n"
  else if b == 0x0D then ascii "\\r"
  else if b == 0x09 then ascii "\\t"
  else if b < 0x20 || b == 0x26 || b == 0x3C || b == 0x3E then
    ascii "\\u00" ++ [hexDigit (b / 16), hexDigit (b % 16)]
  else [b]

def within (low high : UInt8) (b : Option UInt8) : Bool := b.any fun b => low ≤ b && b ≤ high

def acceptLow (b : UInt8) : UInt8 := if b == 0xE0 then 0xA0 else if b == 0xF0 then 0x90 else 0x80

def acceptHigh (b : UInt8) : UInt8 := if b == 0xED then 0x9F else if b == 0xF4 then 0x8F else 0xBF

def runeTail (b : UInt8) (s : Bytes) : Option Nat :=
  if !within (acceptLow b) (acceptHigh b) s[0]? then none
  else if 0xC2 ≤ b && b ≤ 0xDF then some 1
  else if !within 0x80 0xBF s[1]? then none
  else if 0xE0 ≤ b && b ≤ 0xEF then some 2
  else if !within 0x80 0xBF s[2]? then none
  else if 0xF0 ≤ b && b ≤ 0xF4 then some 3
  else none

def escape : (skip keep : Nat) → Bytes → Bytes
  | _, _, [] => []
  | skip + 1, keep, _ :: s => escape skip keep s
  | 0, keep + 1, b :: s => b :: escape 0 keep s
  | 0, 0, b :: s =>
      if b < 0x80 then escapeByte b ++ escape 0 0 s
      else match runeTail b s with
        | none => ascii "\\ufffd" ++ escape 0 0 s
        | some n =>
            if b :: s.take 2 = [0xE2, 0x80, 0xA8] then ascii "\\u2028" ++ escape 2 0 s
            else if b :: s.take 2 = [0xE2, 0x80, 0xA9] then ascii "\\u2029" ++ escape 2 0 s
            else b :: escape 0 n s

def string (s : Bytes) : Bytes := [0x22] ++ escape 0 0 s ++ [0x22]

/-! ### Line breaks -/

def newline : UInt8 := 0x0A

theorem newline_not_mem_escapeByte (b : UInt8) : newline ∉ escapeByte b := by
  have hall : ∀ n < 256, newline ∉ escapeByte (UInt8.ofNat n) := by decide +kernel
  have hbyte := hall b.toNat b.toNat_lt
  rwa [UInt8.ofNat_toNat] at hbyte

variable {b : UInt8} {s : Bytes}

theorem ne_newline_of_le (hb : 0x80 ≤ b) : b ≠ newline := by
  rintro rfl
  exact absurd hb (by decide)

theorem high_of_within {low high : UInt8} {i : Nat} (hlow : 0x80 ≤ low)
    (hwithin : within low high s[i]? = true) : ∀ b, s[i]? = some b → 0x80 ≤ b := by
  intro b hb
  rw [hb, within, any_some, Bool.and_eq_true, decide_eq_true_eq] at hwithin
  exact UInt8.le_trans hlow hwithin.1

theorem le_acceptLow (b : UInt8) : 0x80 ≤ acceptLow b := by
  rw [acceptLow]
  split
  · decide
  · split <;> decide

theorem runeTail_high {n : Nat} (htail : runeTail b s = some n) : ∀ c ∈ s.take n, 0x80 ≤ c := by
  intro c hc
  obtain ⟨i, hi, hget⟩ := mem_take_iff_getElem.1 hc
  have hsome : s[i]? = some c := by
    rw [← hget]
    exact getElem?_eq_getElem (by omega)
  rw [runeTail] at htail
  split at htail
  · cases htail
  · rename_i hzero
    rw [Bool.not_eq_true, Bool.not_eq_false'] at hzero
    have hfirst := high_of_within (le_acceptLow b) hzero
    split at htail
    · cases htail
      obtain rfl : i = 0 := by omega
      exact hfirst c hsome
    · split at htail
      · cases htail
      · rename_i hone
        rw [Bool.not_eq_true, Bool.not_eq_false'] at hone
        have hsecond := high_of_within (UInt8.le_refl _) hone
        split at htail
        · cases htail
          obtain rfl | rfl : i = 0 ∨ i = 1 := by omega
          · exact hfirst c hsome
          · exact hsecond c hsome
        · split at htail
          · cases htail
          · rename_i htwo
            rw [Bool.not_eq_true, Bool.not_eq_false'] at htwo
            have hthird := high_of_within (UInt8.le_refl _) htwo
            split at htail
            · cases htail
              obtain rfl | rfl | rfl : i = 0 ∨ i = 1 ∨ i = 2 := by omega
              · exact hfirst c hsome
              · exact hsecond c hsome
              · exact hthird c hsome
            · cases htail

theorem newline_not_mem_escape (s : Bytes) (skip keep : Nat) (hmode : skip = 0 ∨ keep = 0)
    (hkeep : ∀ b ∈ s.take keep, b ≠ newline) : newline ∉ escape skip keep s := by
  induction s generalizing skip keep with
  | nil => cases skip <;> cases keep <;> exact not_mem_nil
  | cons b s ih =>
    cases skip with
    | succ skip =>
      obtain rfl : keep = 0 := by omega
      exact ih skip 0 (.inr rfl) (by simp)
    | zero =>
      cases keep with
      | succ keep =>
        rw [take_succ_cons, forall_mem_cons] at hkeep
        exact not_mem_cons_of_ne_of_not_mem (Ne.symm hkeep.1) (ih 0 keep (.inl rfl) hkeep.2)
      | zero =>
        have hrest : ∀ skip, newline ∉ escape skip 0 s := fun skip => ih skip 0 (.inr rfl) (by simp)
        rw [escape]
        split
        · exact not_mem_append (newline_not_mem_escapeByte b) (hrest 0)
        · rename_i hhigh
          split
          · exact not_mem_append (by decide) (hrest 0)
          · rename_i n htail
            split
            · exact not_mem_append (by decide) (hrest 2)
            · split
              · exact not_mem_append (by decide) (hrest 2)
              · refine not_mem_cons_of_ne_of_not_mem ?_ (ih 0 n (.inl rfl) ?_)
                · exact Ne.symm (ne_newline_of_le (UInt8.not_lt.1 hhigh))
                · exact fun c hc => ne_newline_of_le (runeTail_high htail c hc)

theorem newline_not_mem_string (s : Bytes) : newline ∉ string s := by
  have hescape := newline_not_mem_escape s 0 0 (.inl rfl) (by simp)
  exact not_mem_append (not_mem_append (by decide) hescape) (by decide)

/-! ### Reading -/

def toValid : (keep : Nat) → Bytes → Bytes
  | _, [] => []
  | keep + 1, b :: s => b :: toValid keep s
  | 0, b :: s =>
      if b < 0x80 then b :: toValid 0 s
      else match runeTail b s with
        | none => [0xEF, 0xBF, 0xBD] ++ toValid 0 s
        | some n => b :: toValid n s

def valid : (keep : Nat) → Bytes → Bool
  | _, [] => true
  | keep + 1, _ :: s => valid keep s
  | 0, b :: s =>
      if b < 0x80 then valid 0 s
      else match runeTail b s with
        | none => false
        | some n => valid n s

theorem toValid_of_valid {keep : Nat} (hvalid : valid keep s = true) : toValid keep s = s := by
  induction s generalizing keep with
  | nil => cases keep <;> rfl
  | cons b s ih =>
    cases keep with
    | succ keep => rw [toValid, ih hvalid]
    | zero =>
      rw [valid] at hvalid
      rw [toValid]
      split_ifs at hvalid ⊢
      · rw [ih hvalid]
      · cases htail : runeTail b s with
        | none =>
          rw [htail] at hvalid
          cases hvalid
        | some n =>
          rw [htail] at hvalid
          dsimp only at hvalid ⊢
          rw [ih hvalid]

inductive Mode where
  | plain
  | slash
  | hex (digits value : Nat)
  deriving DecidableEq, Repr

def hexValue (b : UInt8) : Option Nat :=
  if 0x30 ≤ b && b ≤ 0x39 then some (b - 0x30).toNat
  else if 0x61 ≤ b && b ≤ 0x66 then some ((b - 0x61).toNat + 10)
  else if 0x41 ≤ b && b ≤ 0x46 then some ((b - 0x41).toNat + 10)
  else none

def escaped (b : UInt8) : Option UInt8 :=
  if b == 0x22 || b == 0x5C || b == 0x2F then some b
  else if b == 0x62 then some 0x08
  else if b == 0x66 then some 0x0C
  else if b == 0x6E then some 0x0A
  else if b == 0x72 then some 0x0D
  else if b == 0x74 then some 0x09
  else none

def encodeRune (code : Nat) : Bytes :=
  if code < 0x80 then [UInt8.ofNat code]
  else if code < 0x800 then [UInt8.ofNat (0xC0 + code / 64), UInt8.ofNat (0x80 + code % 64)]
  else if 0xD800 ≤ code ∧ code < 0xE000 then [0xEF, 0xBF, 0xBD]
  else [UInt8.ofNat (0xE0 + code / 4096), UInt8.ofNat (0x80 + code / 64 % 64), UInt8.ofNat (0x80 + code % 64)]

def readByte : Mode → UInt8 → Option (Bytes × Mode)
  | .plain, b =>
      if b == 0x5C then some ([], .slash) else if b < 0x20 || b == 0x22 then none else some ([b], .plain)
  | .slash, b => if b == 0x75 then some ([], .hex 4 0) else (escaped b).map fun c => ([c], .plain)
  | .hex digits value, b => (hexValue b).map fun d =>
      if digits ≤ 1 then (encodeRune (16 * value + d), .plain) else ([], .hex (digits - 1) (16 * value + d))

def readBytes : Mode → Bytes → Option (Bytes × Mode)
  | mode, [] => some ([], mode)
  | mode, b :: s => (readByte mode b).bind fun (out, mode) =>
      (readBytes mode s).map fun (later, mode) => (out ++ later, mode)

def unquote : Mode → Bytes → Option (Bytes × Bytes)
  | _, [] => none
  | mode, b :: s =>
      if mode = .plain ∧ b = 0x22 then some ([], s)
      else (readByte mode b).bind fun (out, mode) => (unquote mode s).map fun (value, rest) => (out ++ value, rest)

theorem readBytes_append {mode mode' : Mode} {out : Bytes} (hread : readBytes mode s = some (out, mode'))
    (t : Bytes) :
    readBytes mode (s ++ t) = (readBytes mode' t).map fun (later, mode) => (out ++ later, mode) := by
  induction s generalizing mode out with
  | nil =>
    obtain ⟨rfl, rfl⟩ := Prod.mk.inj (Option.some.inj hread)
    rw [nil_append]
    cases readBytes mode t <;> rfl
  | cons b s ih =>
    rw [readBytes] at hread
    obtain ⟨⟨first, next⟩, hbyte, hrest⟩ := bind_eq_some_iff.1 hread
    obtain ⟨⟨later, last⟩, hlater, hout⟩ := map_eq_some_iff.1 hrest
    obtain ⟨rfl, rfl⟩ := Prod.mk.inj hout
    rw [cons_append, readBytes, hbyte, bind_some]
    dsimp only
    rw [ih hlater]
    cases readBytes last t with
    | none => rfl
    | some found => exact congrArg some (Prod.ext (append_assoc _ _ _).symm rfl)

theorem unquote_of_readBytes {mode : Mode} {out : Bytes} (hread : readBytes mode s = some (out, .plain))
    (rest : Bytes) : unquote mode (s ++ 0x22 :: rest) = some (out, rest) := by
  induction s generalizing mode out with
  | nil =>
    obtain ⟨rfl, rfl⟩ := Prod.mk.inj (Option.some.inj hread)
    rfl
  | cons b s ih =>
    rw [readBytes] at hread
    obtain ⟨⟨first, next⟩, hbyte, hrest⟩ := bind_eq_some_iff.1 hread
    obtain ⟨⟨later, last⟩, hlater, hout⟩ := map_eq_some_iff.1 hrest
    obtain ⟨rfl, rfl⟩ := Prod.mk.inj hout
    have hquote : ¬ (mode = .plain ∧ b = 0x22) := by
      rintro ⟨rfl, rfl⟩
      cases hbyte
    rw [cons_append, unquote, if_neg hquote, hbyte, bind_some]
    dsimp only
    rw [ih hlater]
    rfl

theorem readBytes_escapeByte (hb : b < 0x80) : readBytes .plain (escapeByte b) = some ([b], .plain) := by
  have hall : ∀ n < 128, readBytes .plain (escapeByte (UInt8.ofNat n)) = some ([UInt8.ofNat n], .plain) := by
    decide +kernel
  have hbyte := hall b.toNat (UInt8.lt_iff_toNat_lt.1 hb)
  rwa [UInt8.ofNat_toNat] at hbyte

theorem readBytes_high (hb : 0x80 ≤ b) (s : Bytes) :
    readBytes .plain (b :: s) = (readBytes .plain s).map fun (later, mode) => (b :: later, mode) := by
  have hall : ∀ n < 128, readByte .plain (UInt8.ofNat (n + 128)) = some ([UInt8.ofNat (n + 128)], .plain) := by
    decide +kernel
  have hle := UInt8.le_iff_toNat_le.1 hb
  have hlt := b.toNat_lt
  simp only [UInt8.reduceToNat] at hle
  have hbyte := hall (b.toNat - 128) (by omega)
  rw [Nat.sub_add_cancel hle, UInt8.ofNat_toNat] at hbyte
  rw [readBytes, hbyte]
  rfl

theorem readBytes_separator {c : UInt8} {code later : Bytes} {n : Nat} (htail : runeTail b s = some n)
    (hseparator : b :: s.take 2 = [0xE2, 0x80, c])
    (hcode : readBytes .plain code = some ([0xE2, 0x80, c], .plain)) (hc : within 0x80 0xBF (some c) = true)
    (hrest : readBytes .plain later = some (toValid 0 (s.drop 2), .plain)) :
    readBytes .plain (code ++ later) = some (b :: toValid n s, .plain) := by
  obtain ⟨rfl, htake⟩ := cons.inj hseparator
  obtain ⟨s, rfl⟩ : ∃ t, s = 0x80 :: c :: t := ⟨s.drop 2, by rw [← take_append_drop 2 s, htake]; rfl⟩
  have hn : runeTail 0xE2 (0x80 :: c :: s) = some 2 := by
    have hsecond : within 0x80 0xBF (0x80 :: c :: s)[1]? = true := hc
    rw [runeTail, hsecond]
    rfl
  obtain rfl : n = 2 := Option.some.inj (htail.symm.trans hn)
  rw [readBytes_append hcode, hrest]
  rfl

theorem readBytes_escape (s : Bytes) (skip keep : Nat) (hmode : skip = 0 ∨ keep = 0)
    (hkeep : ∀ b ∈ s.take keep, 0x80 ≤ b) :
    readBytes .plain (escape skip keep s) = some (toValid keep (s.drop skip), .plain) := by
  induction s generalizing skip keep with
  | nil => cases skip <;> cases keep <;> rfl
  | cons b s ih =>
    cases skip with
    | succ skip =>
      obtain rfl : keep = 0 := by omega
      exact ih skip 0 (.inr rfl) (by simp)
    | zero =>
      cases keep with
      | succ keep =>
        rw [take_succ_cons, forall_mem_cons] at hkeep
        rw [escape, readBytes_high hkeep.1, ih 0 keep (.inl rfl) hkeep.2]
        rfl
      | zero =>
        have hrest : ∀ skip, readBytes .plain (escape skip 0 s) = some (toValid 0 (s.drop skip), .plain) :=
          fun skip => ih skip 0 (.inr rfl) (by simp)
        rw [drop_zero, escape, toValid]
        split
        · rename_i hlow
          rw [readBytes_append (readBytes_escapeByte hlow), hrest 0]
          rfl
        · rename_i hhigh
          rw [UInt8.not_lt] at hhigh
          cases htail : runeTail b s with
          | none =>
            have hcode : readBytes .plain (ascii "\\ufffd") = some ([0xEF, 0xBF, 0xBD], .plain) := by decide +kernel
            dsimp only
            rw [readBytes_append hcode, hrest 0]
            rfl
          | some n =>
            dsimp only
            split
            · rename_i hseparator
              exact readBytes_separator htail hseparator (by decide +kernel) (by decide) (hrest 2)
            · split
              · rename_i hseparator
                exact readBytes_separator htail hseparator (by decide +kernel) (by decide) (hrest 2)
              · rw [readBytes_high hhigh, ih 0 n (.inl rfl) (runeTail_high htail)]
                rfl

theorem unquote_escape (s rest : Bytes) : unquote .plain (escape 0 0 s ++ 0x22 :: rest) = some (toValid 0 s, rest) :=
  unquote_of_readBytes (readBytes_escape s 0 0 (.inl rfl) (by simp)) rest

end Json
