import OmapBootUtils.ConfigHandler
import Mathlib.Data.Nat.Digits.Defs

/-!
The number a value string denotes: white space, a sign, a prefix 0x, and the
hexadecimal digits that follow, in place-value notation and without a bound.
sscanf with %x stores it modulo 2^32, or all ones from 2^64 on, and tells a string of
white space from one that begins otherwise.
-/
namespace OmapBootUtils.HexNumeral

open ConfigHandler

/-- The digits at the start of a text. -/
def digitsOf : List UInt8 → List ℕ
  | [] => []
  | c :: text => match hexDigit c with
    | some d => d :: digitsOf text
    | none => []

def digitsValue (digits : List ℕ) : ℕ := Nat.ofDigits 16 digits.reverse

/-- The number after the sign; a prefix without digits is the numeral 0. -/
def magnitude : List UInt8 → Option ℕ
  | 0x30 :: 0x78 :: text => some (digitsValue (digitsOf text))
  | 0x30 :: 0x58 :: text => some (digitsValue (digitsOf text))
  | text => if digitsOf text = [] then none else some (digitsValue (digitsOf text))

def signed : List UInt8 → Option ℤ
  | 0x2D :: text => (magnitude text).map fun n : ℕ => -(n : ℤ)
  | 0x2B :: text => (magnitude text).map fun n : ℕ => (n : ℤ)
  | text => (magnitude text).map fun n : ℕ => (n : ℤ)

/-- The hexadecimal number a string denotes, if it denotes one. -/
def hexNumber (str : List UInt8) : Option ℤ := signed (str.dropWhile isSpace)

/-- Nothing but white space. -/
abbrev Blank (str : List UInt8) : Prop := str.dropWhile isSpace = []

theorem hexNumber_blank (str : List UInt8) (h : Blank str) : hexNumber str = none := by
  rw [hexNumber, h]
  rfl

/-- A number modulo 2^32. -/
def reduced (z : ℤ) : UInt32 := UInt32.ofNat (z % 2 ^ 32).toNat

/-- A number as sscanf stores it. -/
def scanned (z : ℤ) : UInt32 := if 2 ^ 64 ≤ z.natAbs then 0xFFFFFFFF else reduced z

/-- An sscanf with %x that stores a number in this form. -/
def scanBy (form : ℤ → UInt32) (str : List UInt8) : ScanResult :=
  if Blank str then .eof else
    match hexNumber str with
    | some z => .number (form z)
    | none => .failure

theorem hexDigits_eq (acc : ℕ) (text : List UInt8) :
    hexDigits acc text = acc * 16 ^ (digitsOf text).length + digitsValue (digitsOf text) := by
  induction text generalizing acc with
  | nil => simp [hexDigits, digitsOf, digitsValue]
  | cons c text ih =>
    rw [hexDigits, digitsOf]
    cases hexDigit c with
    | none => simp [digitsValue]
    | some d =>
      simp only [ih, digitsValue, List.reverse_cons, Nat.ofDigits_append, List.length_reverse,
        Nat.ofDigits_singleton, List.length_cons, pow_succ]
      ring

theorem scanMagnitude_eq (text : List UInt8) : scanMagnitude text = magnitude text := by
  have hfirst : ∀ c rest, (hexDigit c).map (fun d => hexDigits d rest) =
      if digitsOf (c :: rest) = [] then none else some (digitsValue (digitsOf (c :: rest))) := by
    intro c rest
    have h := hexDigits_eq 0 (c :: rest)
    rw [digitsOf]
    cases hc : hexDigit c with
    | none => simp
    | some d => simpa [hexDigits, digitsOf, hc] using h
  unfold scanMagnitude magnitude
  split
  · simp [hexDigits_eq]
  · simp [hexDigits_eq]
  · simp [digitsOf]
  · split
    · simp_all
    · simp_all
    · exact hfirst _ _

theorem reduced_natCast (n : ℕ) : reduced n = UInt32.ofNat n := by
  apply UInt32.toNat_inj.mp
  unfold reduced
  rw [UInt32.toNat_ofNat', UInt32.toNat_ofNat']
  omega

theorem reduced_neg_natCast (n : ℕ) : reduced (-(n : ℤ)) = 0 - UInt32.ofNat n := by
  apply UInt32.toNat_inj.mp
  unfold reduced
  rw [UInt32.toNat_ofNat', UInt32.toNat_sub, UInt32.toNat_ofNat']
  simp
  omega

theorem toNat_reduced (z : ℤ) : ((reduced z).toNat : ℤ) = z % 2 ^ 32 := by
  unfold reduced
  rw [UInt32.toNat_ofNat']
  omega

theorem scanned_large {z : ℤ} (h : 2 ^ 64 ≤ z.natAbs) : scanned z = 0xFFFFFFFF := if_pos h

theorem scanned_small {z : ℤ} (h : z.natAbs < 2 ^ 64) : scanned z = reduced z :=
  if_neg (Nat.not_le.mpr h)

theorem scanWord_false (n : ℕ) : scanWord false n = scanned n := by
  have hmax : ulongMax + 1 = 2 ^ 64 := rfl
  unfold scanWord
  by_cases hlarge : n > ulongMax
  · rw [if_pos hlarge, scanned_large (by rw [Int.natAbs_natCast]; omega)]
    rfl
  · rw [if_neg hlarge, if_neg Bool.false_ne_true,
      scanned_small (by rw [Int.natAbs_natCast]; omega), reduced_natCast]

theorem scanWord_true (n : ℕ) : scanWord true n = scanned (-(n : ℤ)) := by
  have hmax : ulongMax + 1 = 2 ^ 64 := rfl
  unfold scanWord
  by_cases hlarge : n > ulongMax
  · rw [if_pos hlarge, scanned_large (by rw [Int.natAbs_neg, Int.natAbs_natCast]; omega)]
    rfl
  · rw [if_neg hlarge, if_pos rfl,
      scanned_small (by rw [Int.natAbs_neg, Int.natAbs_natCast]; omega), reduced_neg_natCast]

/-- A form keeps the numbers of an unsigned int as they are. -/
def KeepsWords (form : ℤ → UInt32) : Prop :=
  ∀ z : ℤ, 0 ≤ z → z < 2 ^ 32 → ((form z).toNat : ℤ) = z

theorem reduced_keepsWords : KeepsWords reduced := fun z hlow hhigh => by
  rw [toNat_reduced, Int.emod_eq_of_lt hlow hhigh]

theorem scanned_keepsWords : KeepsWords scanned := fun z hlow hhigh => by
  rw [scanned_small (by omega), reduced_keepsWords z hlow hhigh]

/-- What sscanf makes of a string. -/
theorem sscanfHex_eq : sscanfHex = scanBy scanned := by
  funext str
  unfold sscanfHex scanBy hexNumber
  simp only [scanMagnitude_eq]
  split
  · next h => exact (if_pos h).symm
  · next text h =>
    have hblank : ¬ Blank str := fun hblank => List.cons_ne_nil _ _ (h.symm.trans hblank)
    rw [if_neg hblank, h]
    simp only [signed]
    cases magnitude text with
    | none => rfl
    | some n => simp [scanWord_true]
  · next text h =>
    have hblank : ¬ Blank str := fun hblank => List.cons_ne_nil _ _ (h.symm.trans hblank)
    rw [if_neg hblank, h]
    simp only [signed]
    cases magnitude text with
    | none => rfl
    | some n => simp [scanWord_false]
  · next text hnil hminus hplus =>
    rw [if_neg hnil, signed.eq_def]
    cases hmagnitude : magnitude (str.dropWhile isSpace) with
    | none => simp [hmagnitude]
    | some n => simp [hmagnitude, scanWord_false]

end OmapBootUtils.HexNumeral
