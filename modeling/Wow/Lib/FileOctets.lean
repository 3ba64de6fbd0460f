import Mathlib.Tactic.Common
import Mathlib.Data.List.Basic

/-!
# Wow.Lib.FileOctets — the octets of a file

A file is the list of its octets.  `pread` and `pwrite` read and write at a position; what a write leaves out behind the
end is a hole of zeros.

* `pwrite_end`: a write at the end appends.
* `pwrite_append`, `pwrite_front`: a write behind a header, and one of the header.
* `pwrite_pwrite`: two writes one behind the other are one.
* `length_pwrite`: the size after a write.
-/

namespace Wow

namespace FileOctets

/-- The `n` octets from `p`, as far as they exist. -/
def pread (b : List UInt8) (p n : Nat) : List UInt8 := (b.drop p).take n

/-- The octets `xs` written at `p`. -/
def pwrite (b : List UInt8) (p : Nat) (xs : List UInt8) : List UInt8 :=
  b.take p ++ List.replicate (p - b.length) 0 ++ xs ++ b.drop (p + xs.length)

theorem length_pwrite (b : List UInt8) (p : Nat) (xs : List UInt8) :
    (pwrite b p xs).length = max b.length (p + xs.length) := by
  simp only [pwrite, List.length_append, List.length_take, List.length_replicate, List.length_drop]
  omega

/-- **A write at the end** appends. -/
theorem pwrite_end (b xs : List UInt8) : pwrite b b.length xs = b ++ xs := by
  rw [pwrite, List.take_length, Nat.sub_self, List.replicate_zero, List.append_nil, List.drop_eq_nil_of_le (by omega),
    List.append_nil]

/-- **A write behind a header** leaves the header. -/
theorem pwrite_append (h b : List UInt8) (p : Nat) (xs : List UInt8) :
    pwrite (h ++ b) (h.length + p) xs = h ++ pwrite b p xs := by
  rw [pwrite, pwrite, List.take_length_add_append, List.length_append, Nat.add_sub_add_left, Nat.add_assoc,
    List.drop_length_add_append]
  simp only [List.append_assoc]

/-- **A write of the header** leaves what lies behind it. -/
theorem pwrite_front (h b : List UInt8) {xs : List UInt8} (hlen : xs.length = h.length) :
    pwrite (h ++ b) 0 xs = xs ++ b := by
  rw [pwrite, List.take_zero, Nat.zero_sub, List.replicate_zero, List.nil_append, List.nil_append, Nat.zero_add, hlen,
    List.drop_left]

/-- **Two writes**, the second behind the first. -/
theorem pwrite_pwrite (b : List UInt8) (p : Nat) (xs ys : List UInt8) :
    pwrite (pwrite b p xs) (p + xs.length) ys = pwrite b p (xs ++ ys) := by
  have hlen : (b.take p ++ List.replicate (p - b.length) 0 ++ xs).length = p + xs.length := by
    simp only [List.length_append, List.length_take, List.length_replicate]
    omega
  have hhole : p + xs.length - (pwrite b p xs).length = 0 := by
    rw [length_pwrite]
    omega
  have htake : (pwrite b p xs).take (p + xs.length) = b.take p ++ List.replicate (p - b.length) 0 ++ xs := by
    rw [pwrite, ← hlen, List.take_left]
  have hdrop : (pwrite b p xs).drop (p + xs.length + ys.length) = b.drop (p + xs.length + ys.length) := by
    rw [pwrite, ← hlen, List.drop_length_add_append, List.drop_drop]
  rw [pwrite, hhole, htake, hdrop, pwrite]
  simp only [List.replicate_zero, List.append_nil, List.append_assoc, List.length_append, Nat.add_assoc]

theorem pread_front (h b : List UInt8) : pread (h ++ b) 0 h.length = h := by
  rw [pread, List.drop_zero, List.take_left]

end FileOctets

end Wow
