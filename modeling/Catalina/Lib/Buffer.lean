import Mathlib.Data.List.Basic

/-!
# Buffers written at an offset

* `blit buf off src`: the bytes `src` copied into `buf` at the offset `off`, if they fit.
* **`blit_middle`**: what a copy replaces; **`blit_append`**: two copies, one behind the other.
* `padTo n src`: a buffer of `n` bytes whose first bytes are `src`.
-/

namespace Catalina

section Blit

variable {α : Type}

/-- `memcpy (buf + off, src, n)` for the `n` bytes of `src`; `none` if it writes outside `buf`. -/
def blit (buf : List α) (off : ℕ) (src : List α) : Option (List α) :=
  if off + src.length ≤ buf.length then some (buf.take off ++ src ++ buf.drop (off + src.length))
  else none

/-- **A copy replaces as many bytes as it writes.** -/
theorem blit_middle {pre mid post src : List α} {off : ℕ} (hoff : off = pre.length)
    (hlen : src.length = mid.length) :
    blit (pre ++ mid ++ post) off src = some (pre ++ src ++ post) := by
  subst hoff
  unfold blit
  rw [if_pos (by simp only [List.length_append]; omega), hlen, List.append_assoc pre mid post,
    List.take_left, ← List.append_assoc pre mid post, ← List.length_append, List.drop_left]

theorem length_blit {buf buf' src : List α} {off : ℕ} (h : blit buf off src = some buf') :
    buf'.length = buf.length ∧ off + src.length ≤ buf.length := by
  unfold blit at h
  split_ifs at h with hle
  cases h
  simp only [List.length_append, List.length_take, List.length_drop]
  omega

/-- **Two copies in a row** are one. -/
theorem blit_append (buf : List α) (off : ℕ) (xs ys : List α) :
    blit buf off (xs ++ ys) = (blit buf off xs).bind fun b => blit b (off + xs.length) ys := by
  by_cases h : off + xs.length ≤ buf.length
  · have hx : blit buf off xs =
        some (buf.take off ++ xs ++ buf.drop (off + xs.length)) := if_pos h
    have hpre : (buf.take off ++ xs).length = off + xs.length := by
      rw [List.length_append, List.length_take]
      omega
    have hlen : (buf.take off ++ xs ++ buf.drop (off + xs.length)).length = buf.length :=
      (length_blit hx).1
    rw [hx, Option.bind_some, blit, blit, hlen, List.length_append, ← Nat.add_assoc]
    rw [show (buf.take off ++ xs ++ buf.drop (off + xs.length)).take (off + xs.length) =
        buf.take off ++ xs from List.take_left' hpre]
    have hdrop : (buf.take off ++ xs ++ buf.drop (off + xs.length)).drop
        (off + xs.length + ys.length) = buf.drop (off + xs.length + ys.length) := by
      rw [← hpre, List.drop_length_add_append, List.drop_drop, hpre]
    rw [hdrop]
    simp only [List.append_assoc]
  · have hx : blit buf off xs = none := if_neg h
    rw [hx, Option.bind_none, blit, if_neg]
    rw [List.length_append]
    omega

/-- A buffer of `n` bytes that starts with `src`; what nobody has written reads as `a`. -/
def padTo (a : α) (n : ℕ) (src : List α) : List α := src ++ List.replicate (n - src.length) a

theorem take_padTo (a : α) {n m : ℕ} {src : List α} (hm : m ≤ src.length) :
    (padTo a n src).take m = src.take m := by
  rw [padTo, List.take_append_of_le_length hm]

end Blit

end Catalina
