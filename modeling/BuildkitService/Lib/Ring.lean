import Mathlib.Data.List.Rotate
import Mathlib.Tactic.Common

/-!
# Ring buffers

A ring is a list and a position in it.
-/

namespace Ring

open List

variable {α : Type*} {src buf : List α}

def overwrite (dst src : List α) : List α := src.take dst.length ++ dst.drop src.length

def overwriteAt (dst : List α) (i : Nat) (src : List α) : List α := dst.take i ++ overwrite (dst.drop i) src

def wrap (dst : List α) (i : Nat) (src : List α) : List α :=
  overwrite (overwriteAt dst i src) (src.drop (dst.drop i).length)

def held (buf : List α) (start size : Nat) : List α := (buf.rotate start).take size

theorem overwrite_of_le {dst : List α} (hle : src.length ≤ dst.length) :
    overwrite dst src = src ++ dst.drop src.length := by
  rw [overwrite, take_of_length_le hle]

theorem overwrite_of_length_eq {dst : List α} (heq : src.length = dst.length) : overwrite dst src = src := by
  rw [overwrite_of_le heq.le, heq, drop_length, append_nil]

theorem overwrite_nil (dst : List α) : overwrite dst [] = dst := overwrite_of_le (Nat.zero_le _)

@[simp] theorem length_overwrite (dst src : List α) : (overwrite dst src).length = dst.length := by
  rw [overwrite, length_append, length_take, length_drop]
  omega

@[simp] theorem length_wrap (dst : List α) (i : Nat) (src : List α) : (wrap dst i src).length = dst.length := by
  rw [wrap, length_overwrite, overwriteAt, length_append, length_overwrite, length_take, length_drop]
  omega

theorem exists_split {l : List α} {n : Nat} (hn : n ≤ l.length) : ∃ l₁ l₂, l = l₁ ++ l₂ ∧ l₁.length = n :=
  ⟨l.take n, l.drop n, (take_append_drop n l).symm, length_take_of_le hn⟩

theorem rotate_wrap {i : Nat} (hi : i ≤ buf.length) (hsrc : src.length ≤ buf.length) :
    (wrap buf i src).rotate i = src ++ (buf.rotate i).drop src.length := by
  obtain ⟨front, back, rfl, rfl⟩ := exists_split hi
  rw [length_append] at hsrc
  rw [rotate_append_length_eq, wrap, overwriteAt, take_left, drop_left]
  rcases Nat.le_total src.length back.length with hfits | hover
  · rw [drop_of_length_le hfits, overwrite_nil, rotate_append_length_eq, overwrite_of_le hfits, append_assoc,
      drop_append_of_le_length hfits]
  · -- What does not fit before the end replaces the first elements.
    obtain ⟨first, rest, rfl, hfirst⟩ := exists_split hover
    rw [length_append] at hsrc
    obtain ⟨old, kept, rfl, hold⟩ := exists_split (show rest.length ≤ front.length by omega)
    have hleft : overwrite back (first ++ rest) = first := by
      rw [overwrite, ← hfirst, take_left, drop_of_length_le (by rw [length_append]; omega), append_nil]
    have hright : overwrite (old ++ kept ++ first) rest = rest ++ kept ++ first := by
      rw [overwrite_of_le (by simp only [length_append]; omega), append_assoc old, drop_left' hold,
        append_assoc]
    have hlength : (old ++ kept).length = (rest ++ kept).length := by
      rw [length_append, length_append, hold]
    have hdrop : (back ++ (old ++ kept)).drop (first ++ rest).length = kept := by
      rw [← append_assoc]
      exact drop_left' (by rw [length_append, length_append, hfirst, hold])
    rw [hleft, ← hfirst, drop_left, hright, hlength, rotate_append_length_eq, hdrop, append_assoc]

theorem held_wrap {start size : Nat} (hpos : 0 < buf.length) (hroom : size + src.length ≤ buf.length) :
    held (wrap buf ((start + size) % buf.length) src) start (size + src.length) = held buf start size ++ src := by
  have hseen := rotate_wrap (Nat.mod_lt (start + size) hpos).le (show src.length ≤ buf.length by omega)
  have hlength := length_wrap buf ((start + size) % buf.length) src
  generalize wrap buf ((start + size) % buf.length) src = new at hseen hlength
  have hturn (l : List α) (hl : l.length = buf.length) : l.rotate ((start + size) % buf.length) =
      (l.rotate start).drop size ++ (l.rotate start).take size := by
    rw [← hl, rotate_mod, ← rotate_rotate]
    exact rotate_eq_drop_append_take (by rw [length_rotate]; omega)
  rw [hturn new hlength, hturn buf rfl, drop_append_of_le_length (by simp only [length_drop, length_rotate]; omega),
    ← append_assoc] at hseen
  obtain ⟨hdrop, htake⟩ := append_inj hseen (by
    simp only [length_append, length_drop, length_rotate, hlength]
    omega)
  rw [held, held, take_add, htake, hdrop, take_left]

theorem held_drop (start : Nat) {size n : Nat} (hn : n ≤ size) (hsize : size ≤ buf.length) :
    held buf ((start + n) % buf.length) (size - n) = (held buf start size).drop n := by
  rw [held, held, rotate_mod, ← rotate_rotate, rotate_eq_drop_append_take (by rw [length_rotate]; omega),
    take_append_of_le_length (by rw [length_drop, length_rotate]; omega), drop_take]

theorem read_eq_held {blank : List α} {start : Nat} (hstart : start ≤ buf.length)
    (hsize : blank.length ≤ buf.length) :
    overwriteAt (overwrite blank (buf.drop start)) (min blank.length (buf.drop start).length)
      (buf.take (blank.length - min blank.length (buf.drop start).length)) = held buf start blank.length := by
  rw [held, rotate_eq_drop_append_take hstart]
  rcases Nat.le_total blank.length (buf.drop start).length with hle | hle
  · rw [Nat.min_eq_left hle, Nat.sub_self, take_zero, overwriteAt, overwrite_nil, take_append_drop, overwrite,
      drop_of_length_le hle, append_nil, take_append_of_le_length hle]
  · have hfront : blank.length - (buf.drop start).length ≤ start := by
      rw [length_drop]
      omega
    have hcopied : (buf.take (blank.length - (buf.drop start).length)).length = (blank.drop (buf.drop start).length).length := by
      simp only [length_take, length_drop]
      omega
    rw [Nat.min_eq_right hle, overwriteAt, overwrite_of_le hle, take_left, drop_left,
      overwrite_of_length_eq hcopied, take_append, take_of_length_le hle, take_take,
      Nat.min_eq_left hfront]

end Ring
