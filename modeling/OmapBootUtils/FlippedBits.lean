import Mathlib.Algebra.BigOperators.Group.List.Basic
import Mathlib.Algebra.GroupWithZero.Nat
import Mathlib.Data.List.Basic

/-!
Single flipped bits in a word of bytes. A flip changes the sum of the bytes by a
power of two, up or down, and leaves the other bytes alone.
-/
namespace OmapBootUtils.FlippedBits

/-- The byte with one bit flipped. -/
def flipBit (b : UInt8) (k : ℕ) : UInt8 := b ^^^ UInt8.ofNat (2 ^ k)

/-- The bytes with one bit of the byte at position `p` flipped. -/
def flipAt (bytes : List UInt8) (p k : ℕ) : List UInt8 := bytes.modify p (flipBit · k)

/-- The numbers are `2 ^ k` apart. -/
def Apart (k a b : ℕ) : Prop := a = b + 2 ^ k ∨ b = a + 2 ^ k

theorem flipBit_apart (b : UInt8) (k : ℕ) (hk : k < 8) :
    Apart k (flipBit b k).toNat b.toNat := by
  have hall : ∀ n < 256, ∀ k < 8,
      (flipBit (UInt8.ofNat n) k).toNat = (UInt8.ofNat n).toNat + 2 ^ k ∨
        (UInt8.ofNat n).toNat = (flipBit (UInt8.ofNat n) k).toNat + 2 ^ k := by
    decide +kernel
  have hb := hall b.toNat b.toNat_lt k hk
  rwa [UInt8.ofNat_toNat] at hb

theorem flipBit_ne (b : UInt8) (k : ℕ) (hk : k < 8) : flipBit b k ≠ b := by
  intro h
  have hapart := flipBit_apart b k hk
  have hpos : 0 < 2 ^ k := Nat.two_pow_pos k
  rw [h] at hapart
  cases hapart with
  | inl hup => omega
  | inr hdown => omega

@[simp] theorem flipAt_length (bytes : List UInt8) (p k : ℕ) :
    (flipAt bytes p k).length = bytes.length := by
  simp [flipAt]

theorem flipAt_cons (b : UInt8) (bytes : List UInt8) (p k : ℕ) :
    flipAt (b :: bytes) (p + 1) k = b :: flipAt bytes p k := rfl

/-- A flip in the first part of a word. -/
theorem flipAt_append_left (bytes later : List UInt8) (p k : ℕ) (h : p < bytes.length) :
    flipAt (bytes ++ later) p k = flipAt bytes p k ++ later := by
  induction bytes generalizing p with
  | nil => simp at h
  | cons b bytes ih =>
    cases p with
    | zero => rfl
    | succ p =>
      rw [List.cons_append, flipAt_cons, flipAt_cons, ih p (Nat.lt_of_succ_lt_succ h),
        List.cons_append]

/-- A flip of the first byte behind a part. -/
theorem flipAt_append_here (bytes later : List UInt8) (b : UInt8) (k : ℕ) :
    flipAt (bytes ++ b :: later) bytes.length k = bytes ++ flipBit b k :: later := by
  induction bytes with
  | nil => rfl
  | cons c bytes ih => rw [List.cons_append, List.length_cons, flipAt_cons, ih, List.cons_append]

theorem getD_flipAt_self (bytes : List UInt8) (p k : ℕ) (h : p < bytes.length) :
    (flipAt bytes p k).getD p 0 = flipBit (bytes.getD p 0) k := by
  simp [flipAt, List.getD_eq_getElem?_getD, h]

theorem getD_flipAt_other (bytes : List UInt8) (p i k : ℕ) (h : p ≠ i) :
    (flipAt bytes p k).getD i 0 = bytes.getD i 0 := by
  simp [flipAt, List.getD_eq_getElem?_getD, h]

theorem sum_flipAt_apart (bytes : List UInt8) (p k : ℕ) (hp : p < bytes.length) (hk : k < 8) :
    Apart k ((flipAt bytes p k).map UInt8.toNat).sum (bytes.map UInt8.toNat).sum := by
  induction bytes generalizing p with
  | nil => simp at hp
  | cons b bytes ih =>
    cases p with
    | zero =>
      have hflip := flipBit_apart b k hk
      have hcons : flipAt (b :: bytes) 0 k = flipBit b k :: bytes := rfl
      rw [hcons, List.map_cons, List.map_cons, List.sum_cons, List.sum_cons]
      unfold Apart at hflip ⊢
      omega
    | succ p =>
      have hrest := ih p (Nat.lt_of_succ_lt_succ hp)
      rw [flipAt_cons, List.map_cons, List.map_cons, List.sum_cons, List.sum_cons]
      unfold Apart at hrest ⊢
      omega

end OmapBootUtils.FlippedBits
