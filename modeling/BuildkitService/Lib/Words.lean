import BuildkitService.Lib.Prog
import Mathlib.Algebra.Order.Ring.Int
import Mathlib.Tactic.Common

/-!
# Programs that compute with machine words

A program may compute with 64-bit words between its calls.
-/

namespace Words

open Prog

variable {Op : Type} {Res : Op → Type} {α β : Type}

inductive Call (Op : Type) where
  | own (o : Op)
  /-- A word has wrapped around. -/
  | wrap

def Answer (Res : Op → Type) : Call Op → Type
  | .own o => Res o
  | .wrap => Unit

abbrev Program (Op : Type) (Res : Op → Type) := Prog (Call Op) (Answer Res)

def lift (p : Prog Op Res α) : Program Op Res α := Prog.lift Call.own (fun _ r => r) p

theorem lift_bind (p : Prog Op Res α) (f : α → Prog Op Res β) : lift (p >>= f) = lift p >>= fun a => lift (f a) :=
  Prog.lift_bind Call.own _ p f

theorem lift_attempt {ε : Type} (p : Prog Op Res (Except ε α)) (f : α → Prog Op Res (Except ε β)) :
    lift (attempt p f) = attempt (lift p) fun a => lift (f a) := Prog.lift_attempt Call.own _ p f

theorem returns_lift {Q : α → Prop} {p : Prog Op Res α} (hp : Returns Q p) : Returns Q (lift p) :=
  Prog.returns_lift Call.own _ hp

def settle (value : β → Int) (word : β) (n : Int) : Program Op Res β :=
  if value word = n then pure word else (Prog.op Call.wrap : Program Op Res Unit) >>= fun _ => pure word

def addInt64 (a b : Int64) : Program Op Res Int64 := settle Int64.toInt (a + b) (a.toInt + b.toInt)

def subInt64 (a b : Int64) : Program Op Res Int64 := settle Int64.toInt (a - b) (a.toInt - b.toInt)

def addUInt64 (a b : UInt64) : Program Op Res UInt64 := settle (fun n => n.toNat) (a + b) (a.toNat + b.toNat)

def subUInt64 (a b : UInt64) : Program Op Res UInt64 := settle (fun n => n.toNat) (a - b) (a.toNat - b.toNat)

def toUInt64 (a : Int64) : Program Op Res UInt64 := settle (fun n => n.toNat) a.toUInt64 a.toInt

def count (n : Nat) : Program Op Res Int64 := settle Int64.toInt (Int64.ofNat n) n

/-! ### Words that do not wrap -/

theorem settle_eq {value : β → Int} {word : β} {n : Int} (hvalue : value word = n) :
    (settle value word n : Program Op Res β) = pure word := if_pos hvalue

theorem count_eq {n : Nat} (hn : n < 2 ^ 63) : (count n : Program Op Res Int64) = pure (Int64.ofNat n) :=
  settle_eq (Int64.toInt_ofNat_of_lt hn)

variable {a b : Nat}

theorem addInt64_ofNat (hfits : a + b < 2 ^ 63) :
    (addInt64 (.ofNat a) (.ofNat b) : Program Op Res Int64) = pure (.ofNat (a + b)) := by
  rw [addInt64, ← Int64.ofNat_add]
  refine settle_eq ?_
  rw [Int64.toInt_ofNat_of_lt hfits, Int64.toInt_ofNat_of_lt (by omega), Int64.toInt_ofNat_of_lt (by omega),
    Int.natCast_add]

theorem subInt64_ofNat (hle : b ≤ a) (ha : a < 2 ^ 63) :
    (subInt64 (.ofNat a) (.ofNat b) : Program Op Res Int64) = pure (.ofNat (a - b)) := by
  rw [subInt64, ← Int64.ofNat_sub a b hle]
  refine settle_eq ?_
  rw [Int64.toInt_ofNat_of_lt (by omega), Int64.toInt_ofNat_of_lt ha, Int64.toInt_ofNat_of_lt (by omega),
    Int.natCast_sub hle]

theorem toNat_ofNat {n : Nat} (hn : n < 2 ^ 64) : (UInt64.ofNat n).toNat = n := UInt64.toNat_ofNat_of_lt' hn

theorem addUInt64_ofNat (hfits : a + b < 2 ^ 64) :
    (addUInt64 (.ofNat a) (.ofNat b) : Program Op Res UInt64) = pure (.ofNat (a + b)) := by
  rw [addUInt64, ← UInt64.ofNat_add]
  refine settle_eq ?_
  rw [toNat_ofNat hfits, toNat_ofNat (by omega), toNat_ofNat (by omega),
    Int.natCast_add]

theorem subUInt64_ofNat (hle : b ≤ a) (ha : a < 2 ^ 64) :
    (subUInt64 (.ofNat a) (.ofNat b) : Program Op Res UInt64) = pure (.ofNat (a - b)) := by
  rw [subUInt64, ← UInt64.ofNat_sub hle]
  refine settle_eq ?_
  rw [toNat_ofNat (by omega), toNat_ofNat ha, toNat_ofNat (by omega),
    Int.natCast_sub hle]

theorem toUInt64_ofNat (ha : a < 2 ^ 63) : (toUInt64 (.ofNat a) : Program Op Res UInt64) = pure (.ofNat a) := by
  have hword : (Int64.ofNat a).toUInt64 = UInt64.ofNat a := rfl
  rw [toUInt64, hword]
  refine settle_eq ?_
  rw [toNat_ofNat (by omega), Int64.toInt_ofNat_of_lt ha]

/-! ### Verification -/

variable {σ : Type*}

def noWrap (d : Prog.Rules Op Res σ) : Prog.Rules (Call Op) (Answer Res) σ where
  sem s o r s' := match o, r with
    | .own o, r => d.sem s o r s'
    | .wrap, _ => s' = s
  guard s o := match o with
    | .own o => d.guard s o
    | .wrap => False
  during := d.during

theorem holds_lift {d : Rules Op Res σ} {p : Prog Op Res α} {s : σ} {post : α → σ → Prop}
    (hp : Holds d p s post) : Holds (noWrap d) (lift p) s post := by
  induction p generalizing s with
  | done a => exact hp
  | call o next ih =>
    refine ⟨hp.1, hp.2.1, ?_⟩
    intro r s' hsem
    exact ih r (hp.2.2 r s' hsem)

end Words
