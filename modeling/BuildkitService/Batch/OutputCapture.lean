import BuildkitService.Lib.Files
import BuildkitService.Lib.Ring
import BuildkitService.Lib.Runs

/-!
# The captured output of a build

`buildOutputCapture` and `readFileTail` of `internal/buildbatch/build_execution.go`.
-/

namespace BuildkitService.Batch

open Strings List Option

/-! ### Writing and reading -/

def sliceFrom (s : Bytes) (i : Int) : Option Bytes := if 0 ≤ i ∧ i ≤ s.length then some (s.drop i.toNat) else none

def sliceTo (s : Bytes) (i : Int) : Option Bytes := if 0 ≤ i ∧ i ≤ s.length then some (s.take i.toNat) else none

def remainder (a b : Int) : Option Int := if b = 0 then none else some (a.tmod b)

def maxBuildLogBytes : Nat := 2 ^ 20

structure BuildOutputCapture where
  buffer : Bytes
  start : Int
  size : Int
  truncated : Bool
  deriving DecidableEq, Repr

def BuildOutputCapture.sized (n : Nat) : BuildOutputCapture := ⟨List.replicate n 0, 0, 0, false⟩

def newBuildOutputCapture : BuildOutputCapture := .sized maxBuildLogBytes

def truncationMarker (maxBytes : Nat) : Bytes :=
  ascii "[buildctl output truncated to last " ++ decimal maxBytes ++ ascii " bytes]\n"

def BuildOutputCapture.makeRoom (c : BuildOutputCapture) (len : Nat) : Option BuildOutputCapture :=
  if c.buffer.length < c.size + len then do
    let drop := c.size + len - c.buffer.length
    let start ← remainder (c.start + drop) c.buffer.length
    some { c with start, size := c.size - drop, truncated := true }
  else some c

def BuildOutputCapture.append (c : BuildOutputCapture) (data : Bytes) : Option BuildOutputCapture := do
  let stop ← remainder (c.start + c.size) c.buffer.length
  let room ← sliceFrom c.buffer stop
  let rest ← sliceFrom data (min room.length data.length : Nat)
  some { c with
    buffer := Ring.overwrite (Ring.overwriteAt c.buffer stop.toNat data) rest, size := c.size + data.length }

def BuildOutputCapture.write (c : BuildOutputCapture) (data : Bytes) : Option (BuildOutputCapture × Nat) :=
  if c.buffer.length ≤ data.length then do
    let last ← sliceFrom data (data.length - c.buffer.length)
    some (⟨Ring.overwrite c.buffer last, 0, c.buffer.length, true⟩, data.length)
  else do
    let c ← c.makeRoom data.length
    let c ← c.append data
    some (c, data.length)

def BuildOutputCapture.out (c : BuildOutputCapture) : Option Bytes :=
  if c.size < 0 then none
  else if c.size = 0 then some []
  else do
    let blank : Bytes := List.replicate c.size.toNat 0
    let tail ← sliceFrom c.buffer c.start
    let first := min blank.length tail.length
    let front ← sliceTo c.buffer (c.size - first)
    some (Ring.overwriteAt (Ring.overwrite blank tail) first front)

def BuildOutputCapture.closeAndReadTail (c : BuildOutputCapture) (readLogs : Bool) : Option Bytes :=
  if !readLogs then some []
  else do
    let out ← c.out
    if c.truncated then some (truncationMarker maxBuildLogBytes ++ out) else some out

structure LogFile where
  opened : Except GoError Unit
  stat : Except GoError Unit
  seek : Except GoError Unit
  copied : Except GoError Unit
  content : Bytes

def LogFile.holding (content : Bytes) : LogFile := ⟨.ok (), .ok (), .ok (), .ok (), content⟩

def readFileTail (file : LogFile) (maxBytes : Int) : Except GoError Bytes := do
  file.opened
  file.stat
  let size := file.content.length
  let truncated : Bool := 0 < maxBytes ∧ maxBytes < size
  let start := if truncated then size - maxBytes.toNat else 0
  file.seek
  file.copied
  .ok ((if truncated then truncationMarker maxBytes.toNat else []) ++ file.content.drop start)

/-! ### The ring -/

def lastBytes (n : Nat) (s : Bytes) : Bytes := s.drop (s.length - n)

variable {s : Bytes}

theorem sliceFrom_natCast {i : Nat} (hi : i ≤ s.length) : sliceFrom s i = some (s.drop i) := by
  rw [sliceFrom, if_pos ⟨Int.natCast_nonneg i, Int.ofNat_le.2 hi⟩, Int.toNat_natCast]

theorem sliceTo_natCast {i : Nat} (hi : i ≤ s.length) : sliceTo s i = some (s.take i) := by
  rw [sliceTo, if_pos ⟨Int.natCast_nonneg i, Int.ofNat_le.2 hi⟩, Int.toNat_natCast]

theorem remainder_natCast (a : Nat) {b : Nat} (hb : 0 < b) : remainder a b = some ((a % b : Nat) : Int) := by
  rw [remainder, if_neg (by omega), Int.natCast_emod, Int.tmod_eq_emod_of_nonneg (Int.natCast_nonneg a)]

variable {n start size len : Nat} {buffer seen data : Bytes} {truncated : Bool} {c : BuildOutputCapture}

theorem makeRoom_eq (hlength : buffer.length = n) (hstart : start < n) (hsize : size ≤ n) (hlen : len < n) :
    BuildOutputCapture.makeRoom ⟨buffer, start, size, truncated⟩ len =
      some ⟨buffer, ((start + (size + len - n)) % n : Nat), (size - (size + len - n) : Nat),
        truncated || decide (n < size + len)⟩ := by
  simp only [BuildOutputCapture.makeRoom, hlength]
  by_cases hover : n < size + len
  · have hdrop : (size : Int) + len - n = (size + len - n : Nat) := by omega
    rw [if_pos (by exact_mod_cast hover), hdrop, ← Int.natCast_add, remainder_natCast _ (by omega), decide_eq_true hover,
      Bool.or_true, ← Int.natCast_sub (by omega)]
    rfl
  · have hnone : size + len - n = 0 := by omega
    rw [if_neg (by exact_mod_cast hover), hnone, Nat.add_zero, Nat.mod_eq_of_lt hstart, Nat.sub_zero,
      decide_eq_false hover, Bool.or_false]

theorem append_eq (hlength : buffer.length = n) (hpos : 0 < n) :
    BuildOutputCapture.append ⟨buffer, start, size, truncated⟩ data =
      some ⟨Ring.wrap buffer ((start + size) % n) data, start, (size + data.length : Nat), truncated⟩ := by
  subst hlength
  have hstop : (start + size) % buffer.length ≤ buffer.length := (Nat.mod_lt _ hpos).le
  simp only [BuildOutputCapture.append, ← Int.natCast_add, remainder_natCast _ hpos, sliceFrom_natCast hstop,
    sliceFrom_natCast (Nat.min_le_right _ _), bind_eq_bind, bind_some, Int.toNat_natCast]
  have hrest (room : Nat) : data.drop (min room data.length) = data.drop room := by
    rcases Nat.le_total room data.length with hle | hle
    · rw [Nat.min_eq_left hle]
    · rw [Nat.min_eq_right hle, drop_length, drop_of_length_le hle]
  rw [hrest]
  rfl

theorem out_eq (hlength : buffer.length = n) (hstart : start ≤ n) (hsize : size ≤ n) :
    BuildOutputCapture.out ⟨buffer, start, size, truncated⟩ = some (Ring.held buffer start size) := by
  subst hlength
  have hblank : (replicate size (0 : UInt8)).length = size := length_replicate
  have hread := Ring.read_eq_held hstart (hblank.trans_le hsize)
  rw [hblank] at hread
  simp only [BuildOutputCapture.out, Int.natCast_eq_zero, Int.toNat_natCast, length_replicate]
  rw [if_neg (Int.not_lt.2 (Int.natCast_nonneg size))]
  split_ifs with hzero
  · rw [hzero, Ring.held, take_zero]
  · rw [sliceFrom_natCast hstart, bind_eq_bind, bind_some, ← Int.natCast_sub (Nat.min_le_left _ _),
      sliceTo_natCast (by omega), bind_some, hread]

def BuildOutputCapture.Holds (n : Nat) (seen : Bytes) (c : BuildOutputCapture) : Prop :=
  ∃ buffer start, c = ⟨buffer, (start : Nat), (min n seen.length : Nat), c.truncated⟩ ∧ buffer.length = n ∧
    (start = 0 ∨ start < n) ∧ Ring.held buffer start (min n seen.length) = lastBytes n seen

theorem holds_sized (n : Nat) : (BuildOutputCapture.sized n).Holds n [] := by
  refine ⟨replicate n 0, 0, ?_, length_replicate, .inl rfl, ?_⟩
  · rw [length_nil, Nat.min_zero]
    rfl
  · rw [length_nil, Nat.min_zero, Ring.held, take_zero, lastBytes, drop_nil]

theorem lastBytes_append_of_le (seen : Bytes) (hle : n ≤ data.length) : lastBytes n (seen ++ data) = lastBytes n data := by
  rw [lastBytes, lastBytes, length_append, drop_append, drop_of_length_le (by omega), nil_append]
  congr 1
  omega

theorem lastBytes_append (seen : Bytes) (hlt : data.length ≤ n) :
    lastBytes n (seen ++ data) = (lastBytes n seen).drop (min n seen.length + data.length - n) ++ data := by
  rw [lastBytes, lastBytes, drop_drop, length_append, drop_append_of_le_length (by omega)]
  congr 2
  omega

theorem BuildOutputCapture.Holds.write (hholds : c.Holds n seen) (data : Bytes) :
    ∃ c', c.write data = some (c', data.length) ∧ c'.Holds n (seen ++ data) ∧
      c'.truncated = (c.truncated || decide (n ≤ data.length ∨ n < min n seen.length + data.length)) := by
  obtain ⟨buffer, start, hc, rfl, hstart, hheld⟩ := hholds
  have htotal : (seen ++ data).length = seen.length + data.length := length_append
  rw [hc, BuildOutputCapture.write]
  dsimp only
  split_ifs with hlong
  · -- The new bytes alone fill the ring.
    have hlast : (data.drop (data.length - buffer.length)).length = buffer.length := by
      rw [length_drop]
      omega
    have hall : min buffer.length (seen ++ data).length = buffer.length := by omega
    refine ⟨⟨data.drop (data.length - buffer.length), 0, buffer.length, true⟩, ?_, ⟨_, 0, ?_, hlast, .inl rfl, ?_⟩, ?_⟩
    · rw [← Int.natCast_sub hlong, sliceFrom_natCast (Nat.sub_le _ _), bind_eq_bind, bind_some,
        Ring.overwrite_of_length_eq hlast]
    · rw [hall]
      rfl
    · rw [hall, Ring.held, rotate_zero, take_of_length_le hlast.le, lastBytes_append_of_le seen hlong, lastBytes]
    · rw [decide_eq_true (.inl hlong), Bool.or_true]
  · have hpos : 0 < buffer.length := by omega
    set size := min buffer.length seen.length with hsize
    have hdropped := Ring.held_drop start (show size + data.length - buffer.length ≤ size by omega)
      (Nat.min_le_left _ _)
    have hroom : size - (size + data.length - buffer.length) + data.length = min buffer.length (seen ++ data).length := by
      omega
    rw [makeRoom_eq rfl (show start < buffer.length by omega) (Nat.min_le_left _ _) (by omega), bind_eq_bind, bind_some,
      append_eq rfl hpos, bind_some, hroom]
    refine ⟨_, rfl, ⟨_, _, rfl, Ring.length_wrap _ _ _, .inr (Nat.mod_lt _ hpos), ?_⟩, ?_⟩
    · rw [← hroom, Ring.held_wrap hpos (by omega), hdropped, hheld, lastBytes_append seen (by omega)]
    · exact congrArg (c.truncated || ·) (decide_eq_decide.2 (or_iff_right hlong).symm)

/-! ### Runs -/

def captureStep (c : BuildOutputCapture) (data : Bytes) : Option BuildOutputCapture := (c.write data).map Prod.fst

structure Captured (n : Nat) (writes : List Bytes) (c : BuildOutputCapture) : Prop where
  holds : c.Holds n writes.flatten
  truncated : c.truncated = true ↔ n < writes.flatten.length ∨ ∃ data ∈ writes, n ≤ data.length

variable {writes : List Bytes}

theorem Captured.step (hcaptured : Captured n writes c) (data : Bytes) :
    ∃ c', captureStep c data = some c' ∧ Captured n (writes ++ [data]) c' := by
  obtain ⟨c', hwrite, hholds, hflag⟩ := hcaptured.holds.write data
  have hflatten : (writes ++ [data]).flatten = writes.flatten ++ data := by simp
  refine ⟨c', by rw [captureStep, hwrite]; rfl, ⟨hflatten ▸ hholds, ?_⟩⟩
  rw [hflag, Bool.or_eq_true, hcaptured.truncated, decide_eq_true_iff, hflatten, length_append]
  simp only [mem_append, mem_singleton, or_and_right, exists_or, exists_eq_left]
  constructor
  · rintro ((hold | hold) | hlong | hover)
    · exact .inl (by omega)
    · exact .inr (.inl hold)
    · exact .inr (.inr hlong)
    · exact .inl (by omega)
  · rintro (hover | hold | hlong)
    · rcases Nat.lt_or_ge n writes.flatten.length with hbefore | hbefore
      · exact .inl (.inl hbefore)
      · exact .inr (.inr (by omega))
    · exact .inl (.inr hold)
    · exact .inr (.inl hlong)

theorem Captured.run (hcaptured : Captured n writes c) (more : List Bytes) :
    ∃ c', Runs.exec captureStep c more = some c' ∧ Captured n (writes ++ more) c' := by
  induction more generalizing writes c with
  | nil => exact ⟨c, rfl, by rwa [append_nil]⟩
  | cons data more ih =>
    obtain ⟨next, hstep, hnext⟩ := hcaptured.step data
    obtain ⟨c', hexec, hend⟩ := ih hnext
    rw [append_assoc] at hend
    exact ⟨c', (Runs.exec_cons_eq_some captureStep).2 ⟨next, hstep, hexec⟩, hend⟩

theorem captured_run (n : Nat) (writes : List Bytes) :
    ∃ c, Runs.exec captureStep (.sized n) writes = some c ∧ Captured n writes c := by
  have hstart : Captured n [] (.sized n) := ⟨holds_sized n, by simp [BuildOutputCapture.sized]⟩
  exact hstart.run writes

theorem Captured.read (hcaptured : Captured n writes c) : c.closeAndReadTail true =
      some ((if c.truncated then truncationMarker maxBuildLogBytes else []) ++ lastBytes n writes.flatten) := by
  obtain ⟨buffer, start, hc, hlength, hstart, hheld⟩ := hcaptured.holds
  have hout : c.out = some (lastBytes n writes.flatten) := by
    rw [hc, out_eq hlength (by omega) (Nat.min_le_left _ _), hheld]
  rw [BuildOutputCapture.closeAndReadTail, hout]
  cases c.truncated with
  | true | false => rfl

/-- What is read after the marker are the last bytes written. -/
theorem capture_keeps_tail (hn : 0 < n) (writes : List Bytes) :
    ∃ c, Runs.exec captureStep (.sized n) writes = some c ∧ (0 ≤ c.start ∧ c.start < n) ∧ (0 ≤ c.size ∧ c.size ≤ n) ∧
      c.closeAndReadTail true =
        some ((if c.truncated then truncationMarker maxBuildLogBytes else []) ++ lastBytes n writes.flatten) ∧
      (lastBytes n writes.flatten).length = min n writes.flatten.length := by
  obtain ⟨c, hexec, hcaptured⟩ := captured_run n writes
  obtain ⟨buffer, start, hc, _, hstart, _⟩ := hcaptured.holds
  refine ⟨c, hexec, ?_, ?_, hcaptured.read, ?_⟩
  · rw [hc]
    exact ⟨Int.natCast_nonneg _, Int.ofNat_lt.2 (by omega)⟩
  · rw [hc]
    exact ⟨Int.natCast_nonneg _, Int.ofNat_le.2 (Nat.min_le_left _ _)⟩
  · rw [lastBytes, List.length_drop]
    omega

theorem capture_keeps_tail_wrapped :
    ∃ c, Runs.exec captureStep (.sized 4) [ascii "abc", ascii "de", ascii "f"] = some c ∧
      c.closeAndReadTail true = some (truncationMarker maxBuildLogBytes ++ ascii "cdef") := by
  obtain ⟨c, hexec, _, _, hread, _⟩ := capture_keeps_tail (n := 4) (by decide) [ascii "abc", ascii "de", ascii "f"]
  have hflag : (Runs.exec captureStep (.sized 4) [ascii "abc", ascii "de", ascii "f"]).map (·.truncated) = some true := by
    decide +kernel
  rw [hexec] at hflag
  refine ⟨c, hexec, hread.trans ?_⟩
  rw [if_pos (Option.some.inj hflag)]
  rfl

/-! ### The marker -/

theorem truncationMarker_append_ne (m : Nat) (s : Bytes) : truncationMarker m ++ s ≠ s := by
  intro heq
  have hnil : truncationMarker m = [] := append_left_eq_self.1 heq
  rw [truncationMarker, append_eq_nil_iff, append_eq_nil_iff] at hnil
  exact absurd hnil.1.1 (by decide)

theorem truncationMarker_inj {m : Nat} : truncationMarker m ++ s = truncationMarker n ++ s ↔ m = n := by
  refine ⟨fun heq => ?_, fun heq => by rw [heq]⟩
  have hmarkers := append_cancel_right heq
  rw [truncationMarker, truncationMarker] at hmarkers
  exact decimal_injective (append_cancel_left (append_cancel_right hmarkers))

theorem readFileTail_holding (n : Nat) (content : Bytes) : readFileTail (.holding content) n =
      .ok (if n = 0 then content else (if n < content.length then truncationMarker n else []) ++ lastBytes n content) := by
  simp only [readFileTail, LogFile.holding, Int.natCast_pos, Int.ofNat_lt, Int.toNat_natCast, decide_eq_true_iff]
  show Except.ok _ = Except.ok _
  congr 1
  by_cases hzero : n = 0
  · rw [if_pos hzero, if_neg (by omega), if_neg (by omega), drop_zero, nil_append]
  · rw [if_neg hzero]
    by_cases hover : n < content.length
    · rw [if_pos ⟨Nat.pos_of_ne_zero hzero, hover⟩, if_pos ⟨Nat.pos_of_ne_zero hzero, hover⟩, if_pos hover, lastBytes]
    · rw [if_neg (by omega), if_neg (by omega), if_neg hover, lastBytes, Nat.sub_eq_zero_of_le (by omega)]

def TailAgrees (n : Nat) (writes : List Bytes) : Prop :=
  if n = 0 then writes = [] ∨ writes.flatten = truncationMarker maxBuildLogBytes
  else if n < writes.flatten.length then n = maxBuildLogBytes
  else ∀ data ∈ writes, data.length < n

/-- When the tail of a capture is that of a file. -/
theorem tail_agrees_iff (n : Nat) (writes : List Bytes) :
    ∃ c, Runs.exec captureStep (.sized n) writes = some c ∧
      (c.closeAndReadTail true = (readFileTail (.holding writes.flatten) n).toOption ↔ TailAgrees n writes) ∧
      ((c.truncated = true ↔ n < writes.flatten.length) ↔
        n < writes.flatten.length ∨ ∀ data ∈ writes, data.length < n) := by
  obtain ⟨c, hexec, hcaptured⟩ := captured_run n writes
  have hflag := hcaptured.truncated
  refine ⟨c, hexec, ?_, ?_⟩
  · rw [hcaptured.read, readFileTail_holding, Except.toOption, Option.some.injEq, TailAgrees]
    split_ifs with htruncated hzero hover hzero hover
    · -- Without room nothing is kept.
      have hwrites : writes ≠ [] := by
        rintro rfl
        rcases hflag.1 htruncated with hlost | ⟨data, hdata, _⟩
        · cases hlost
        · cases hdata
      rw [hzero, lastBytes, Nat.sub_zero, List.drop_length, List.append_nil, or_iff_right hwrites, eq_comm]
    · rw [truncationMarker_inj, eq_comm]
    · obtain hlost | ⟨data, hdata, hlong⟩ := hflag.1 htruncated
      · exact absurd hlost hover
      · refine iff_of_false (truncationMarker_append_ne _ _) fun hshort => ?_
        exact absurd (hshort data hdata) (Nat.not_lt.2 hlong)
    · have hwrites : writes = [] := by
        refine List.eq_nil_iff_forall_not_mem.2 fun data hdata => ?_
        exact htruncated (hflag.2 (Or.inr ⟨data, hdata, hzero ▸ Nat.zero_le _⟩))
      rw [hwrites]
      exact iff_of_true (by rw [List.flatten_nil, lastBytes, List.drop_nil]; rfl) (Or.inl rfl)
    · exact absurd (hflag.2 (Or.inl hover)) htruncated
    · refine iff_of_true rfl fun data hdata => ?_
      by_contra hlong
      exact htruncated (hflag.2 (Or.inr ⟨data, hdata, Nat.not_lt.1 hlong⟩))
  · rw [hflag]
    constructor
    · intro hiff
      by_cases hlost : n < writes.flatten.length
      · exact Or.inl hlost
      · refine Or.inr fun data hdata => ?_
        by_contra hlong
        exact hlost (hiff.1 (Or.inr ⟨data, hdata, Nat.not_lt.1 hlong⟩))
    · rintro (hlost | hshort)
      · exact iff_of_true (Or.inl hlost) hlost
      · refine or_iff_left ?_
        rintro ⟨data, hdata, hlong⟩
        exact absurd (hshort data hdata) (Nat.not_lt.2 hlong)

theorem full_write_labelled_truncated :
    ∃ c, Runs.exec captureStep newBuildOutputCapture [List.replicate maxBuildLogBytes 0x61] = some c ∧
      c.truncated = true ∧
      c.closeAndReadTail true = some (truncationMarker maxBuildLogBytes ++ List.replicate maxBuildLogBytes 0x61) ∧
      readFileTail (.holding (List.replicate maxBuildLogBytes 0x61)) maxBuildLogBytes =
        .ok (List.replicate maxBuildLogBytes 0x61) := by
  obtain ⟨c, hexec, hcaptured⟩ := captured_run maxBuildLogBytes [List.replicate maxBuildLogBytes 0x61]
  have hlength : (List.replicate maxBuildLogBytes (0x61 : UInt8)).length = maxBuildLogBytes := List.length_replicate
  have hall : lastBytes maxBuildLogBytes (List.replicate maxBuildLogBytes 0x61) = List.replicate maxBuildLogBytes 0x61 := by
    rw [lastBytes, hlength, Nat.sub_self, List.drop_zero]
  have hflag : c.truncated = true := hcaptured.truncated.2 (Or.inr ⟨_, List.mem_singleton_self _, hlength.ge⟩)
  refine ⟨c, hexec, hflag, ?_, ?_⟩
  · rw [hcaptured.read, if_pos hflag, List.flatten_singleton, hall]
  · rw [readFileTail_holding, if_neg (by decide), if_neg (by rw [hlength]; exact lt_irrefl _), hall, List.nil_append]

end BuildkitService.Batch
