import Mathlib.Data.List.Basic
import Mathlib.Tactic.Ring

/-!
Byte-addressed memory with checked block writes and little-endian numbers.
A write that leaves the object it addresses is rejected. Reads are total; the
lemmas say what a read sees of a write that covers it or misses it.
-/
namespace OmapBootUtils.ByteMemory

abbrev Memory := ℕ → UInt8

def readBytes (s : Memory) (start len : ℕ) : List UInt8 :=
  (List.range len).map fun i => s (start + i)

def putBytes (s : Memory) (start : ℕ) (bytes : List UInt8) : Memory :=
  fun j => if start ≤ j then (bytes[j - start]?).getD (s j) else s j

/-- Checked write: a block that does not end inside `size` bytes is rejected. -/
def writeBytes (size : ℕ) (s : Memory) (start : ℕ) (bytes : List UInt8) : Option Memory :=
  if start + bytes.length ≤ size then some (putBytes s start bytes) else none

/-- The low `len` base-256 digits of a number, least significant first. -/
def leBytes : ℕ → ℕ → List UInt8
  | 0, _ => []
  | len + 1, v => UInt8.ofNat v :: leBytes len (v / 256)

def leNat : List UInt8 → ℕ
  | [] => 0
  | b :: bs => b.toNat + 256 * leNat bs

@[simp] theorem readBytes_length (s : Memory) (start len : ℕ) :
    (readBytes s start len).length = len := by simp [readBytes]

@[simp] theorem getElem_readBytes (s : Memory) (start len i : ℕ)
    (h : i < (readBytes s start len).length) : (readBytes s start len)[i] = s (start + i) := by
  simp [readBytes]

theorem readBytes_shift (s t : Memory) (a b len : ℕ) (h : ∀ i, i < len → s (a + i) = t (b + i)) :
    readBytes s a len = readBytes t b len := by
  unfold readBytes
  apply List.map_congr_left
  intro i hi
  exact h i (List.mem_range.mp hi)

theorem readBytes_congr (s t : Memory) (start len : ℕ)
    (h : ∀ i, i < len → s (start + i) = t (start + i)) :
    readBytes s start len = readBytes t start len :=
  readBytes_shift s t start start len h

theorem eq_of_readBytes_eq (s t : Memory) (a b len i : ℕ)
    (h : readBytes s a len = readBytes t b len) (hi : i < len) : s (a + i) = t (b + i) := by
  have hget := congrArg (fun l => l[i]?) h
  simpa [readBytes, hi] using hget

theorem readBytes_append (s : Memory) (start len₁ len₂ : ℕ) :
    readBytes s start (len₁ + len₂) =
      readBytes s start len₁ ++ readBytes s (start + len₁) len₂ := by
  simp [readBytes, List.range_add, Nat.add_assoc]

theorem readBytes_succ (s : Memory) (start len : ℕ) :
    readBytes s start (len + 1) = s start :: readBytes s (start + 1) len := by
  rw [Nat.add_comm len 1, readBytes_append]
  simp [readBytes]

theorem putBytes_at (s : Memory) (start : ℕ) (bytes : List UInt8) (i : ℕ)
    (h : i < bytes.length) : putBytes s start bytes (start + i) = bytes[i] := by
  simp [putBytes, h]

theorem putBytes_outside (s : Memory) (start : ℕ) (bytes : List UInt8) (j : ℕ)
    (h : j < start ∨ start + bytes.length ≤ j) : putBytes s start bytes j = s j := by
  unfold putBytes
  split
  · have hlen : bytes.length ≤ j - start := by omega
    simp [List.getElem?_eq_none hlen]
  · rfl

@[simp] theorem putBytes_nil (s : Memory) (start : ℕ) : putBytes s start [] = s := by
  funext j
  exact putBytes_outside s start [] j (by simp; omega)

theorem putBytes_append (s : Memory) (start : ℕ) (a b : List UInt8) :
    putBytes s start (a ++ b) = putBytes (putBytes s start a) (start + a.length) b := by
  funext j
  by_cases hlow : j < start + a.length
  · rw [putBytes_outside _ (start + a.length) b j (Or.inl hlow)]
    unfold putBytes
    split
    · rw [List.getElem?_append_left (by omega)]
    · rfl
  · have hafter : start ≤ j ∧ start + a.length ≤ j := by omega
    rw [putBytes, if_pos hafter.1, List.getElem?_append_right (by omega), putBytes,
      if_pos hafter.2, putBytes_outside s start a j (by omega), Nat.sub_sub]

/-- A block reads back as it was written. -/
theorem readBytes_putBytes (s : Memory) (start : ℕ) (bytes : List UInt8) :
    readBytes (putBytes s start bytes) start bytes.length = bytes := by
  apply List.ext_getElem
  · simp
  · intro i hi hi'
    simpa using putBytes_at s start bytes i hi'

/-- Writing back what is there changes nothing. -/
theorem putBytes_readBytes (s : Memory) (start len : ℕ) :
    putBytes s start (readBytes s start len) = s := by
  funext j
  by_cases hj : start ≤ j ∧ j < start + len
  · obtain ⟨i, rfl⟩ := Nat.exists_eq_add_of_le hj.1
    rw [putBytes_at s start _ i (by simp; omega), getElem_readBytes]
  · exact putBytes_outside s start _ j (by simp; omega)

theorem readBytes_putBytes_outside (s : Memory) (start : ℕ) (bytes : List UInt8) (a len : ℕ)
    (h : a + len ≤ start ∨ start + bytes.length ≤ a) :
    readBytes (putBytes s start bytes) a len = readBytes s a len := by
  apply readBytes_congr
  intro i hi
  apply putBytes_outside
  omega

theorem writeBytes_inside (size : ℕ) (s : Memory) (start : ℕ) (bytes : List UInt8)
    (h : start + bytes.length ≤ size) :
    writeBytes size s start bytes = some (putBytes s start bytes) := by
  simp [writeBytes, h]

@[simp] theorem leBytes_length (len v : ℕ) : (leBytes len v).length = len := by
  induction len generalizing v with
  | zero => rfl
  | succ len ih => simp [leBytes, ih]

theorem leNat_leBytes (len v : ℕ) : leNat (leBytes len v) = v % 256 ^ len := by
  induction len generalizing v with
  | zero => simp [leBytes, leNat, Nat.mod_one]
  | succ len ih =>
    simp only [leBytes, leNat, ih, UInt8.toNat_ofNat', Nat.reducePow]
    rw [Nat.pow_succ, Nat.mul_comm (256 ^ len) 256, Nat.mod_mul]

theorem leNat_lt (bytes : List UInt8) : leNat bytes < 256 ^ bytes.length := by
  induction bytes with
  | nil => simp [leNat]
  | cons b bs ih =>
    have hb : b.toNat < 256 := b.toNat_lt
    simp only [leNat, List.length_cons, Nat.pow_succ]
    omega

/-- Every block of bytes is the little-endian encoding of the number it denotes. -/
theorem leBytes_leNat (bytes : List UInt8) : leBytes bytes.length (leNat bytes) = bytes := by
  induction bytes with
  | nil => rfl
  | cons b bs ih =>
    have hb : b.toNat < 256 := b.toNat_lt
    have hlow : UInt8.ofNat (b.toNat + 256 * leNat bs) = b := by
      apply UInt8.toNat_inj.mp
      simp only [UInt8.toNat_ofNat']
      omega
    have hhigh : (b.toNat + 256 * leNat bs) / 256 = leNat bs := by omega
    simp only [leNat, List.length_cons, leBytes, hlow, hhigh, ih]

theorem leBytes_add (m n v : ℕ) : leBytes (m + n) v = leBytes m v ++ leBytes n (v / 256 ^ m) := by
  induction m generalizing v with
  | zero => simp [leBytes]
  | succ m ih =>
    rw [Nat.succ_add, leBytes, ih, leBytes, Nat.div_div_eq_div_mul, Nat.pow_succ, Nat.mul_comm 256]
    rfl

def u32Bytes (v : UInt32) : List UInt8 := leBytes 4 v.toNat

def readU32 (s : Memory) (a : ℕ) : UInt32 := UInt32.ofNat (leNat (readBytes s a 4))

def putU32 (s : Memory) (a : ℕ) (v : UInt32) : Memory := putBytes s a (u32Bytes v)

@[simp] theorem u32Bytes_length (v : UInt32) : (u32Bytes v).length = 4 := by simp [u32Bytes]

theorem leNat_u32Bytes (v : UInt32) : leNat (u32Bytes v) = v.toNat := by
  rw [u32Bytes, leNat_leBytes]
  exact Nat.mod_eq_of_lt v.toNat_lt

@[simp] theorem ofNat_leNat_u32Bytes (v : UInt32) : UInt32.ofNat (leNat (u32Bytes v)) = v := by
  rw [leNat_u32Bytes, UInt32.ofNat_toNat]

theorem readU32_congr (s t : Memory) (a : ℕ) (h : ∀ j, a ≤ j → j < a + 4 → s j = t j) :
    readU32 s a = readU32 t a := by
  unfold readU32
  rw [readBytes_congr s t a 4 fun i hi => h (a + i) (by omega) (by omega)]

theorem readU32_shift (s t : Memory) (a b : ℕ) (h : ∀ i, i < 4 → s (a + i) = t (b + i)) :
    readU32 s a = readU32 t b := by
  rw [readU32, readU32, readBytes_shift s t a b 4 h]

@[simp] theorem readU32_putU32 (s : Memory) (a : ℕ) (v : UInt32) :
    readU32 (putU32 s a v) a = v := by
  have h := readBytes_putBytes s a (u32Bytes v)
  rw [u32Bytes_length] at h
  rw [readU32, putU32, h, ofNat_leNat_u32Bytes]

theorem readU32_putU32_other (s : Memory) (a b : ℕ) (v : UInt32)
    (h : b + 4 ≤ a ∨ a + 4 ≤ b) : readU32 (putU32 s a v) b = readU32 s b := by
  rw [readU32, putU32, readBytes_putBytes_outside s a (u32Bytes v) b 4 (by simpa using h), readU32]

theorem putU32_outside (s : Memory) (a j : ℕ) (v : UInt32)
    (h : j < a ∨ a + 4 ≤ j) : putU32 s a v j = s j :=
  putBytes_outside s a (u32Bytes v) j (by simpa using h)

end OmapBootUtils.ByteMemory
