/-
  Zero-terminated strings in a buffer.

  A buffer is a list of bytes.  The string at an offset goes up to the first zero byte, and there is none when the
  buffer ends before it.

  * `cstr`        — the string some memory begins with;
  * `cstr_append` — a string with its terminator, and what is behind it;
  * `poke`        — the buffer after some bytes were written into it.
-/
import Mathlib.Tactic.Common

namespace KernelPatches.Lib

/-- The string the memory begins with, up to its terminator. -/
def cstr : List UInt8 → Option (List UInt8)
  | [] => none
  | b :: bs => if b = 0 then some [] else (cstr bs).map (b :: ·)

/-- `strlen` of the string at an offset. -/
def strlen (buf : List UInt8) (p : Nat) : Option Nat := (cstr (buf.drop p)).map List.length

section

variable {s rest buf bs : List UInt8} {off : Nat}

theorem cstr_append (h : 0 ∉ s) : cstr (s ++ 0 :: rest) = some s := by
  induction s with
  | nil => rfl
  | cons b s ih =>
    obtain ⟨hb, hs⟩ := not_or.mp fun h' => h (List.mem_cons.mpr h')
    show (if b = 0 then some [] else (cstr (s ++ 0 :: rest)).map (b :: ·)) = _
    rw [if_neg (Ne.symm hb), ih hs]
    rfl

theorem strlen_eq {p : Nat} (h : buf.drop p = s ++ 0 :: rest) (hs : 0 ∉ s) : strlen buf p = some s.length := by
  unfold strlen
  rw [h, cstr_append hs]
  rfl

/-- Without a terminator there is no string. -/
theorem cstr_eq_none (h : 0 ∉ s) : cstr s = none := by
  induction s with
  | nil => rfl
  | cons b s ih =>
    obtain ⟨hb, hs⟩ := not_or.mp fun h' => h (List.mem_cons.mpr h')
    show (if b = 0 then some [] else (cstr s).map (b :: ·)) = _
    rw [if_neg (Ne.symm hb), ih hs]
    rfl

/-- Some bytes are written at an offset. -/
def poke (buf : List UInt8) (off : Nat) (bs : List UInt8) : List UInt8 :=
  buf.take off ++ (bs ++ buf.drop (off + bs.length))

theorem length_poke (h : off + bs.length ≤ buf.length) : (poke buf off bs).length = buf.length := by
  unfold poke
  rw [List.length_append, List.length_append, List.length_take, List.length_drop]
  omega

/-- What is at the offset then. -/
theorem drop_poke (h : off ≤ buf.length) : (poke buf off bs).drop off = bs ++ buf.drop (off + bs.length) := by
  unfold poke
  rw [List.drop_append_of_le_length (by rw [List.length_take]; omega), List.drop_of_length_le (by rw [List.length_take]; omega),
    List.nil_append]

end

end KernelPatches.Lib
