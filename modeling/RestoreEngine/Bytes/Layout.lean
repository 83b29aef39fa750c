import Mathlib.Data.List.Basic
import Mathlib.Algebra.Group.Nat.Defs

/-!
# Layouts of bytes

Numbers in little-endian bytes, slices of a text of bytes, and blocks of one width. A number is read
back from its bytes (`value_littleEndian`), a part of a text is the slice at its place
(`slice_append`), and blocks are read back from their concatenation (`blocks_flatten`).
-/

namespace RestoreEngine.Bytes

/-! ### Numbers -/

/-- The little-endian bytes of a number. -/
def littleEndian : ℕ → ℕ → List UInt8
  | 0, _ => []
  | width + 1, n => UInt8.ofNat n :: littleEndian width (n / 256)

/-- The number that little-endian bytes stand for. -/
def value : List UInt8 → ℕ
  | [] => 0
  | b :: bs => b.toNat + 256 * value bs

@[simp] theorem length_littleEndian (width n : ℕ) : (littleEndian width n).length = width := by
  induction width generalizing n with
  | zero => rfl
  | succ width ih => rw [littleEndian, List.length_cons, ih]

/-- **A number is read back** from as many bytes as it needs. -/
theorem value_littleEndian {width n : ℕ} (h : n < 256 ^ width) :
    value (littleEndian width n) = n := by
  induction width generalizing n with
  | zero =>
    rw [Nat.pow_zero] at h
    rw [littleEndian, value]
    omega
  | succ width ih =>
    rw [Nat.pow_succ] at h
    have hbyte : (UInt8.ofNat n).toNat = n % 256 := UInt8.toNat_ofNat'
    rw [littleEndian, value, ih (by omega), hbyte]
    omega

/-! ### Slices -/

section slice

variable {α : Type*} {a b c : List α}

/-- `data[start:stop]`. -/
def slice (data : List α) (start stop : ℕ) : List α := (data.drop start).take (stop - start)

/-- A part of a text is the slice at its place. -/
theorem slice_append {start stop : ℕ} (hstart : start = a.length)
    (hstop : stop = a.length + b.length) : slice (a ++ (b ++ c)) start stop = b := by
  rw [slice, hstart, hstop, List.drop_left, Nat.add_sub_cancel_left, List.take_left]

/-- A slice behind a part of the text. -/
theorem slice_append_right {start stop : ℕ} (h : a.length ≤ start) :
    slice (a ++ b) start stop = slice b (start - a.length) (stop - a.length) := by
  rw [slice, slice, List.drop_append, List.drop_eq_nil_of_le h, List.nil_append]
  congr 1
  omega

end slice

/-! ### Blocks -/

/-- The first blocks of a width. -/
def blocks {α : Type*} (width : ℕ) (data : List α) (count : ℕ) : List (List α) :=
  (List.range count).map fun i => slice data (i * width) ((i + 1) * width)

/-- **Blocks are read back** from their concatenation. -/
theorem blocks_flatten {α : Type*} {width : ℕ} {parts : List (List α)}
    (h : ∀ part ∈ parts, part.length = width) :
    blocks width parts.flatten parts.length = parts := by
  induction parts with
  | nil => rfl
  | cons part parts ih =>
    obtain ⟨hpart, hparts⟩ := List.forall_mem_cons.mp h
    have hrest : ∀ i, slice (part ++ parts.flatten) ((i + 1) * width) ((i + 1 + 1) * width) =
        slice parts.flatten (i * width) ((i + 1) * width) := by
      intro i
      rw [slice_append_right (by rw [hpart, Nat.add_mul, Nat.one_mul]; omega), hpart]
      congr 1 <;> rw [Nat.add_mul, Nat.one_mul, Nat.add_sub_cancel]
    have hfirst : slice (part ++ parts.flatten) (0 * width) ((0 + 1) * width) = part := by
      rw [slice, Nat.zero_mul, Nat.zero_add, Nat.one_mul, List.drop_zero, Nat.sub_zero,
        List.take_left' hpart]
    rw [blocks, List.length_cons, List.range_succ_eq_map, List.map_cons, List.map_map,
      List.flatten_cons, hfirst]
    refine congrArg (part :: ·) ((List.map_congr_left fun i _ => ?_).trans (ih hparts))
    exact hrest i

end RestoreEngine.Bytes
