import Mathlib.Data.Nat.Digits.Defs
import OmapBootUtils.JoinedWords

/-!
struct lcfg_string, the string of lcfg that grows by doubling, and the path of
the parser on it. What each function does to the block is compared with what it
does to the text; the number of an element loses a place when its leading digits
are ten.
-/
namespace OmapBootUtils.GrowingString

open JoinedWords

/-- A byte of str that nothing was stored to is none. -/
structure LcfgString where
  str : List (Option UInt8)
  size : ℕ
  capacity : ℕ
  deriving DecidableEq, Repr

/-! ### The functions -/

/-- realloc keeps what fits of the old block. -/
def realloc (str : List (Option UInt8)) (n : ℕ) : List (Option UInt8) :=
  str.take n ++ List.replicate (n - str.length) none

namespace LcfgString

def new : LcfgString := ⟨List.replicate 8 none, 0, 8⟩

/-- memcpy to a place in str. -/
def store (s : LcfgString) (start : ℕ) (bytes : List UInt8) : Option LcfgString :=
  if start + bytes.length ≤ s.str.length then
    some { s with str := s.str.take start ++ bytes.map some ++ s.str.drop (start + bytes.length) }
  else none

/-- The loop of lcfg_string_grow. After 32 rounds the capacity is 0 and stays 0, and
the loop does not end. From 2^32 - 1 on newSize wraps and the loop is left too early;
what is stored then goes past the block, which is no result either. -/
def growLoop : ℕ → LcfgString → ℕ → Option LcfgString
  | 0, _, _ => none
  | rounds + 1, s, newSize =>
      if newSize + 1 > s.capacity then
        let capacity := s.capacity * 2 % 2 ^ 32
        growLoop rounds ⟨realloc s.str capacity, s.size, capacity⟩ newSize
      else some s

def grow (s : LcfgString) (newSize : ℕ) : Option LcfgString := growLoop 32 s newSize

def newCopy (s : LcfgString) : LcfgString :=
  ⟨s.str.take s.size ++ List.replicate (s.capacity - s.size) none, s.size, s.capacity⟩

def trunc (s : LcfgString) (maxSize : ℕ) : LcfgString :=
  if maxSize < s.size then { s with size := maxSize } else s

def catCstr (s : LcfgString) (cstr : List UInt8) : Option LcfgString := do
  let s ← s.grow (s.size + cstr.length)
  let s ← s.store s.size cstr
  return { s with size := s.size + cstr.length }

def catChar (s : LcfgString) (c : UInt8) : Option LcfgString := do
  let s ← s.grow (s.size + 1)
  let s ← s.store s.size [c]
  return { s with size := s.size + 1 }

def set (s : LcfgString) (cstr : List UInt8) : Option LcfgString := (s.trunc 0).catCstr cstr

end LcfgString

/-- while (ii > 10) size_needed++, in at most as many rounds as ii is large. -/
def sizeNeeded : ℕ → ℕ → ℕ
  | 0, _ => 1
  | rounds + 1, ii => if ii > 10 then sizeNeeded rounds (ii / 10) + 1 else 1

def digitChar (d : ℕ) : UInt8 := UInt8.ofNat (0x30 + d)

namespace LcfgString

/-- The do loop of lcfg_string_cat_uint, in at most i + 1 rounds. The index of the
store is computed on unsigned numbers. -/
def storeDigits : ℕ → LcfgString → ℕ → ℕ → Option LcfgString
  | 0, s, _, _ => some s
  | rounds + 1, s, ii, i => do
      let s ← s.store ((s.size + ii) % 2 ^ 32) [digitChar (i % 10)]
      if i / 10 ≠ 0 then storeDigits rounds s ((ii + 0xFFFFFFFF) % 2 ^ 32) (i / 10) else some s

def catUint (s : LcfgString) (i : ℕ) : Option LcfgString := do
  let size := sizeNeeded i i
  let s ← s.grow (s.size + size)
  let s ← storeDigits (i + 1) s (size - 1) i
  return { s with size := s.size + size }

def rfindFrom (str : List (Option UInt8)) (c : UInt8) : ℕ → ℤ
  | 0 => -1
  | i + 1 => if str[i]? = some (some c) then i else rfindFrom str c i

def rfind (s : LcfgString) (c : UInt8) : ℤ := rfindFrom s.str c s.size

def findFrom (str : List (Option UInt8)) (c : UInt8) (size : ℕ) : ℕ → ℤ
  | 0 => -1
  | left + 1 =>
      if str[size - (left + 1)]? = some (some c) then (size - (left + 1) : ℕ)
      else findFrom str c size left

def find (s : LcfgString) (c : UInt8) : ℤ := findFrom s.str c s.size s.size

/-- lcfg_string_cstr: the text is closed by a NUL. -/
def cstr (s : LcfgString) : Option LcfgString := s.store s.size [0]

def len (s : LcfgString) : ℕ := s.size

end LcfgString

def dot : UInt8 := 0x2E

/-- The dot before a name or a number, if the path has names. -/
def pathDot (currentPath : LcfgString) : Option LcfgString :=
  if currentPath.len ≠ 0 then currentPath.catChar dot else some currentPath

/-- PATH_PUSH_STR -/
def pathPushStr (currentPath : LcfgString) (name : List UInt8) : Option LcfgString :=
  (pathDot currentPath).bind fun path => path.catCstr name

/-- PATH_PUSH_INT -/
def pathPushInt (currentPath : LcfgString) (i : ℕ) : Option LcfgString :=
  (pathDot currentPath).bind fun path => path.catUint i

/-- PATH_POP -/
def pathPop (currentPath : LcfgString) : LcfgString :=
  if currentPath.rfind dot ≠ -1 then currentPath.trunc (currentPath.rfind dot).toNat
  else currentPath.trunc 0

/-! ### Decimal numbers -/

def decimal (i : ℕ) : List UInt8 :=
  if i = 0 then [digitChar 0] else ((Nat.digits 10 i).map digitChar).reverse

theorem decimal_digit (i : ℕ) (h : i < 10) : decimal i = [digitChar i] := by
  unfold decimal
  split
  · next hzero => rw [hzero]
  · next hne => simp [Nat.digits_of_lt 10 i hne h]

theorem decimal_step (i : ℕ) (h : 10 ≤ i) :
    decimal i = decimal (i / 10) ++ [digitChar (i % 10)] := by
  have hne : i ≠ 0 := by omega
  have hne' : i / 10 ≠ 0 := by omega
  rw [decimal, if_neg hne, decimal, if_neg hne',
    Nat.digits_def' (by decide) (Nat.pos_of_ne_zero hne)]
  simp

theorem decimal_length_pos (i : ℕ) : 0 < (decimal i).length := by
  by_cases h : i < 10
  · rw [decimal_digit i h]
    exact Nat.one_pos
  · rw [decimal_step i (by omega), List.length_append]
    exact Nat.lt_add_left _ Nat.one_pos

/-- Some quotient of the number by a power of ten is ten. -/
def LeadingTen (i : ℕ) : Prop := ∃ k, i / 10 ^ k = 10

theorem leadingTen_small (i : ℕ) (h : i ≤ 10) : LeadingTen i ↔ i = 10 := by
  constructor
  · intro hten
    obtain ⟨k, hk⟩ := hten
    have hle : i / 10 ^ k ≤ i := Nat.div_le_self i _
    omega
  · intro hten
    exact ⟨0, by simpa using hten⟩

theorem leadingTen_step (i : ℕ) (h : 10 < i) : LeadingTen i ↔ LeadingTen (i / 10) := by
  constructor
  · intro hten
    obtain ⟨k, hk⟩ := hten
    cases k with
    | zero => simp only [Nat.pow_zero, Nat.div_one] at hk; omega
    | succ k => exact ⟨k, by rwa [Nat.div_div_eq_div_mul, ← Nat.pow_succ']⟩
  · intro hten
    obtain ⟨k, hk⟩ := hten
    exact ⟨k + 1, by rwa [Nat.pow_succ', ← Nat.div_div_eq_div_mul]⟩

theorem sizeNeeded_pos (rounds i : ℕ) : 0 < sizeNeeded rounds i := by
  cases rounds with
  | zero => exact Nat.one_pos
  | succ rounds =>
    unfold sizeNeeded
    split <;> omega

/-- The places the first loop counts. -/
theorem sizeNeeded_eq (rounds i : ℕ) (h : i ≤ rounds) :
    (LeadingTen i → sizeNeeded rounds i + 1 = (decimal i).length) ∧
      (¬ LeadingTen i → sizeNeeded rounds i = (decimal i).length) := by
  induction rounds generalizing i with
  | zero =>
    have hzero : i = 0 := by omega
    subst hzero
    simp [leadingTen_small, sizeNeeded, decimal_digit]
  | succ rounds ih =>
    by_cases hlarge : 10 < i
    · obtain ⟨hten, hother⟩ := ih (i / 10) (by omega)
      rw [leadingTen_step i hlarge, sizeNeeded, if_pos hlarge, decimal_step i (by omega),
        List.length_append, List.length_singleton]
      constructor
      · intro h
        rw [hten h]
      · intro h
        rw [hother h]
    · rw [leadingTen_small i (by omega), sizeNeeded, if_neg hlarge]
      constructor
      · intro h
        subst h
        decide
      · intro h
        rw [decimal_digit i (by omega)]
        rfl

instance (i : ℕ) : Decidable (LeadingTen i) :=
  decidable_of_iff (sizeNeeded i i ≠ (decimal i).length) (by
    obtain ⟨hten, hother⟩ := sizeNeeded_eq i i le_rfl
    by_cases h : LeadingTen i
    · have := hten h
      simp only [h, iff_true]
      omega
    · simp [h, hother h])

/-! ### Blocks that hold a text -/

/-- The block has room for the text and a NUL. -/
structure Holds (s : LcfgString) (text : List UInt8) : Prop where
  allocated : s.str.length = s.capacity
  size : s.size = text.length
  stored : s.str.take s.size = text.map some
  room : s.size < s.capacity
  doubled : ∃ k ≤ 31, s.capacity = 2 ^ k

theorem holds_new : Holds .new [] where
  allocated := rfl
  size := rfl
  stored := rfl
  room := by decide
  doubled := ⟨3, by decide⟩

theorem Holds.bound {s : LcfgString} {text : List UInt8} (h : Holds s text) :
    s.str.length ≤ 2 ^ 31 := by
  obtain ⟨k, hk, hcapacity⟩ := h.doubled
  rw [h.allocated, hcapacity]
  exact Nat.pow_le_pow_right (by decide) hk

namespace LcfgString

theorem growLoop_never (rounds n : ℕ) (s : LcfgString) (h : s.capacity = 0) :
    growLoop rounds s n = none := by
  induction rounds generalizing s with
  | zero => rfl
  | succ rounds ih =>
    rw [growLoop, if_pos (by omega)]
    apply ih
    simp [h]

theorem holds_realloc (s : LcfgString) (text : List UInt8) (k : ℕ) (h : Holds s text)
    (hk : k ≤ 31) (hle : s.capacity ≤ 2 ^ k) :
    Holds ⟨realloc s.str (2 ^ k), s.size, 2 ^ k⟩ text where
  allocated := by
    have hlen := h.allocated
    simp only [realloc, List.length_append, List.length_take, List.length_replicate]
    omega
  size := h.size
  stored := by
    have hlen : s.size ≤ s.str.length := by rw [h.allocated]; exact h.room.le
    have hall : s.str.take (2 ^ k) = s.str := List.take_of_length_le (by rw [h.allocated]; exact hle)
    rw [realloc, hall, List.take_append_of_le_length hlen]
    exact h.stored
  room := Nat.lt_of_lt_of_le h.room hle
  doubled := ⟨k, hk, rfl⟩

/-- The block grows until the text fits, or the loop does not end. -/
theorem growLoop_spec (rounds k n : ℕ) (s : LcfgString) (text : List UInt8) (h : Holds s text)
    (hcapacity : s.capacity = 2 ^ k) (hk : k ≤ 31) (hrounds : 32 ≤ rounds + k) :
    (2 ^ 31 ≤ n ∧ growLoop rounds s n = none) ∨
      ∃ s', growLoop rounds s n = some s' ∧ Holds s' text ∧ n < s'.capacity := by
  induction rounds generalizing k s with
  | zero => omega
  | succ rounds ih =>
    by_cases hroom : n + 1 > s.capacity
    · rw [growLoop, if_pos hroom]
      by_cases hlast : k = 31
      · left
        subst hlast
        exact ⟨by omega, growLoop_never rounds n _ (by simp [hcapacity])⟩
      · have hdouble : s.capacity * 2 % 2 ^ 32 = 2 ^ (k + 1) := by
          have hlt : 2 ^ (k + 1) < 2 ^ 32 := Nat.pow_lt_pow_right (by decide) (by omega)
          rw [hcapacity, ← Nat.pow_succ, Nat.mod_eq_of_lt hlt]
        rw [hdouble]
        apply ih (k + 1) _ _ rfl (by omega) (by omega)
        apply holds_realloc s text (k + 1) h (by omega)
        rw [hcapacity]
        exact Nat.pow_le_pow_right (by decide) (by omega)
    · right
      exact ⟨s, by rw [growLoop, if_neg hroom], h, by omega⟩

theorem grow_spec (n : ℕ) (s : LcfgString) (text : List UInt8) (h : Holds s text) :
    (2 ^ 31 ≤ n ∧ s.grow n = none) ∨
      ∃ s', s.grow n = some s' ∧ Holds s' text ∧ n < s'.capacity := by
  obtain ⟨k, hk, hcapacity⟩ := h.doubled
  exact growLoop_spec 32 k n s text h hcapacity hk (by omega)

theorem store_inside (s : LcfgString) (start : ℕ) (bytes : List UInt8)
    (h : start + bytes.length ≤ s.str.length) :
    s.store start bytes = some { s with
      str := s.str.take start ++ bytes.map some ++ s.str.drop (start + bytes.length) } :=
  if_pos h

/-- Bytes stored over the end of the text become part of it. -/
theorem holds_stored (s : LcfgString) (text kept bytes : List UInt8) (h : Holds s text)
    (hkept : s.str.take kept.length = kept.map some)
    (hroom : (kept ++ bytes).length < s.capacity) :
    Holds ⟨s.str.take kept.length ++ bytes.map some ++ s.str.drop (kept.length + bytes.length),
      (kept ++ bytes).length, s.capacity⟩ (kept ++ bytes) where
  allocated := by
    have hlen := h.allocated
    rw [List.length_append] at hroom
    simp only [List.length_append, List.length_take, List.length_map, List.length_drop]
    omega
  size := rfl
  stored := by
    have hlen : (kept ++ bytes).length = (kept.map some ++ bytes.map some).length := by simp
    rw [hkept, hlen, List.take_left]
    simp
  room := hroom
  doubled := h.doubled

end LcfgString

/-- What an unsigned capacity can hold. -/
def fits (text : List UInt8) : Option (List UInt8) :=
  if text.length < 2 ^ 31 then some text else none

namespace LcfgString

theorem fits_of_lt (text : List UInt8) (h : text.length < 2 ^ 31) : fits text = some text :=
  if_pos h

theorem fits_of_le (text : List UInt8) (h : 2 ^ 31 ≤ text.length) : fits text = none :=
  if_neg (by omega)

theorem length_lt_of_holds (s : LcfgString) (text : List UInt8) (h : Holds s text) :
    text.length < 2 ^ 31 := by
  have hbound := h.bound
  have hroom := h.room
  rw [h.allocated] at hbound
  rw [h.size] at hroom
  omega

/-- The step that catCstr and catChar share. -/
theorem grow_store_spec (s : LcfgString) (text bytes : List UInt8) (h : Holds s text) :
    Option.Rel Holds
      (do
        let s ← s.grow (s.size + bytes.length)
        let s ← s.store s.size bytes
        return { s with size := s.size + bytes.length })
      (fits (text ++ bytes)) := by
  rcases grow_spec (s.size + bytes.length) s text h with ⟨hlarge, hnone⟩ | ⟨s', hs', hholds, hroom⟩
  · rw [hnone, fits_of_le _ (by rw [List.length_append, ← h.size]; exact hlarge)]
    exact Option.Rel.none
  · have hsize : s'.size = text.length := hholds.size
    have hlen : (text ++ bytes).length < s'.capacity := by
      rw [List.length_append, ← h.size]
      exact hroom
    have hstore := store_inside s' s'.size bytes (by
      rw [List.length_append] at hlen
      rw [hholds.allocated, hsize]
      omega)
    have hresult := holds_stored s' text text bytes hholds (hsize ▸ hholds.stored) hlen
    have hbound := length_lt_of_holds _ _ hresult
    rw [hs', fits_of_lt _ hbound]
    simp only [Option.bind_eq_bind, Option.bind_some, hstore, Option.pure_def]
    apply Option.Rel.some
    rw [List.length_append] at hresult
    rw [hsize]
    exact hresult

theorem catCstr_spec (s : LcfgString) (text cstr : List UInt8) (h : Holds s text) :
    Option.Rel Holds (s.catCstr cstr) (fits (text ++ cstr)) := grow_store_spec s text cstr h

theorem catChar_spec (s : LcfgString) (text : List UInt8) (c : UInt8) (h : Holds s text) :
    Option.Rel Holds (s.catChar c) (fits (text ++ [c])) := grow_store_spec s text [c] h

theorem trunc_spec (s : LcfgString) (text : List UInt8) (maxSize : ℕ) (h : Holds s text) :
    Holds (s.trunc maxSize) (text.take maxSize) := by
  unfold trunc
  have hsize := h.size
  have hroom := h.room
  split
  · next hlt =>
    refine ⟨h.allocated, ?_, ?_, by simp only; omega, h.doubled⟩
    · simp only [List.length_take]
      omega
    · have hstored := congrArg (List.take maxSize) h.stored
      rw [List.take_take, min_eq_left hlt.le] at hstored
      rw [hstored, List.map_take]
  · next hle =>
    rw [List.take_of_length_le (by omega)]
    exact h

theorem set_spec (s : LcfgString) (text cstr : List UInt8) (h : Holds s text) :
    Option.Rel Holds (s.set cstr) (fits cstr) := by
  have htrunc : Holds (s.trunc 0) [] := trunc_spec s text 0 h
  exact catCstr_spec (s.trunc 0) [] cstr htrunc

theorem newCopy_spec (s : LcfgString) (text : List UInt8) (h : Holds s text) :
    Holds s.newCopy text where
  allocated := by
    have hlen := h.allocated
    have hroom := h.room
    simp only [newCopy, List.length_append, List.length_take, List.length_replicate]
    omega
  size := h.size
  stored := by
    have hlen : s.size ≤ (s.str.take s.size).length := by
      have hallocated := h.allocated
      have hroom := h.room
      rw [List.length_take]
      omega
    simp only [newCopy]
    rw [List.take_append_of_le_length hlen, List.take_take, min_self]
    exact h.stored
  room := h.room
  doubled := h.doubled

/-- The digits of the number, stored from the last place down, end at place q. -/
theorem storeDigits_spec (rounds : ℕ) (s : LcfgString) (ii i q : ℕ) (hrounds : i < rounds)
    (hq : (s.size + ii) % 2 ^ 32 = q) (hinside : q < s.str.length)
    (hlen : (decimal i).length ≤ q + 1) :
    storeDigits rounds s ii i = some { s with
      str := s.str.take (q + 1 - (decimal i).length) ++ (decimal i).map some ++
        s.str.drop (q + 1) } := by
  induction rounds generalizing s ii i q with
  | zero => omega
  | succ rounds ih =>
    rw [storeDigits, hq, store_inside s q [digitChar (i % 10)] hinside, Option.bind_eq_bind,
      Option.bind_some]
    by_cases hlast : i / 10 ≠ 0
    · have hdecimal := decimal_step i (by omega)
      have hlen' : (decimal i).length = (decimal (i / 10)).length + 1 := by
        rw [hdecimal, List.length_append, List.length_singleton]
      have hpos := decimal_length_pos (i / 10)
      rw [if_pos hlast, ih _ _ (i / 10) (q - 1) (by omega)]
      · have hq' : q - 1 + 1 = q := by omega
        have htake : (s.str.take q).length = q := by rw [List.length_take]; omega
        have hfront : q - (decimal (i / 10)).length ≤ (s.str.take q).length := by omega
        rw [hq', hdecimal, List.length_append, List.length_singleton, Nat.add_sub_add_right]
        simp only [List.map_cons, List.map_nil, List.map_append]
        rw [List.append_assoc (s.str.take q), List.take_append_of_le_length hfront,
          List.take_take, min_eq_left (by omega), List.drop_left' htake]
        simp
      · simp only
        omega
      · simp only [List.length_append, List.length_take, List.length_drop, List.length_map]
        omega
      · omega
    · rw [if_neg hlast, decimal_digit i (by omega), Nat.mod_eq_of_lt (by omega : i < 10)]
      simp

/-- A number with more digits than there are places is stored off the block. -/
theorem storeDigits_outside (rounds : ℕ) (s : LcfgString) (ii i q : ℕ) (hrounds : i < rounds)
    (hq : (s.size + ii) % 2 ^ 32 = q) (hinside : q < s.str.length) (hbound : s.str.length ≤ 2 ^ 31)
    (hlen : q + 1 < (decimal i).length) : storeDigits rounds s ii i = none := by
  induction rounds generalizing s ii i q with
  | zero => omega
  | succ rounds ih =>
    have hlarge : 10 ≤ i := by
      by_contra hsmall
      rw [decimal_digit i (by omega), List.length_singleton] at hlen
      omega
    have hmore : i / 10 ≠ 0 := by omega
    rw [decimal_step i hlarge, List.length_append, List.length_singleton] at hlen
    rw [storeDigits, hq, store_inside s q [digitChar (i % 10)] hinside, Option.bind_eq_bind,
      Option.bind_some,
      if_pos hmore]
    have hlength : (s.str.take q ++ [digitChar (i % 10)].map some ++
        s.str.drop (q + [digitChar (i % 10)].length)).length = s.str.length := by
      simp only [List.length_append, List.length_take, List.length_drop, List.length_map,
        List.length_singleton]
      omega
    by_cases hzero : q = 0
    · obtain ⟨rounds, rfl⟩ := Nat.exists_eq_succ_of_ne_zero (by omega : rounds ≠ 0)
      have hwild : (s.size + (ii + 0xFFFFFFFF) % 2 ^ 32) % 2 ^ 32 = 2 ^ 32 - 1 := by omega
      have hout : ¬ 2 ^ 32 - 1 + [digitChar (i / 10 % 10)].length ≤ s.str.length := by
        rw [List.length_singleton]
        omega
      simp only [storeDigits, store, hlength, hwild, if_neg hout]
      rfl
    · apply ih _ _ (i / 10) (q - 1) (by omega)
      · simp only
        omega
      · simp only [hlength]
        omega
      · simp only [hlength]
        exact hbound
      · omega

end LcfgString

/-- lcfg_string_cat_uint on the text. -/
def numbered (text : List UInt8) (i : ℕ) : Option (List UInt8) :=
  if LeadingTen i then if text.isEmpty then none else some (text.dropLast ++ decimal i)
  else some (text ++ decimal i)

namespace LcfgString

theorem catUint_eq (s s' : LcfgString) (i : ℕ) (hgrow : s.grow (s.size + sizeNeeded i i) = some s') :
    s.catUint i = (storeDigits (i + 1) s' (sizeNeeded i i - 1) i).map fun t =>
      { t with size := t.size + sizeNeeded i i } := by
  simp only [catUint, hgrow, Option.bind_eq_bind, Option.bind_some, Option.pure_def]
  rw [Option.map_eq_bind]
  rfl

theorem catUint_none (s : LcfgString) (i : ℕ) (hgrow : s.grow (s.size + sizeNeeded i i) = none) :
    s.catUint i = none := by
  simp [catUint, hgrow]

/-- The digits end where the places that were counted end. -/
theorem catUint_stored (s : LcfgString) (text kept : List UInt8) (i : ℕ) (h : Holds s text)
    (hkept : s.str.take kept.length = kept.map some) (hlen : kept.length + (decimal i).length =
      text.length + sizeNeeded i i) (hroom : text.length + sizeNeeded i i < s.capacity) :
    ∃ t, storeDigits (i + 1) s (sizeNeeded i i - 1) i = some t ∧
      Holds { t with size := t.size + sizeNeeded i i } (kept ++ decimal i) := by
  have hpos := sizeNeeded_pos i i
  have hdigits := decimal_length_pos i
  have hsize := h.size
  have hbound := h.bound
  rw [h.allocated] at hbound
  have hresult := holds_stored s text kept (decimal i) h hkept (by
    rw [List.length_append]
    omega)
  have hstore := storeDigits_spec (i + 1) s (sizeNeeded i i - 1) i
    (text.length + sizeNeeded i i - 1) (by omega) (by omega) (by rw [h.allocated]; omega) (by omega)
  refine ⟨_, hstore, ?_⟩
  have hstart : text.length + sizeNeeded i i - 1 + 1 - (decimal i).length = kept.length := by omega
  have hend : text.length + sizeNeeded i i - 1 + 1 = kept.length + (decimal i).length := by omega
  rw [List.length_append] at hresult
  rw [hstart, hend]
  simp only [hsize, ← hlen]
  exact hresult

theorem catUint_spec (s : LcfgString) (text : List UInt8) (i : ℕ) (h : Holds s text) :
    Option.Rel Holds (s.catUint i) ((numbered text i).bind fits) := by
  obtain ⟨hten, hother⟩ := sizeNeeded_eq i i le_rfl
  have hsize := h.size
  rcases grow_spec (s.size + sizeNeeded i i) s text h with
    ⟨hlarge, hnone⟩ | ⟨s', hs', hholds, hroom⟩
  · rw [catUint_none s i hnone]
    have htext : (numbered text i).bind fits = none := by
      unfold numbered
      split
      · next h10 =>
        have hplaces := hten h10
        split
        · rfl
        · next hne =>
          have hpos : 0 < text.length := by
            apply List.length_pos_iff.mpr
            simpa using hne
          apply fits_of_le
          rw [List.length_append, List.length_dropLast]
          omega
      · next h10 =>
        have hplaces := hother h10
        apply fits_of_le
        rw [List.length_append]
        omega
    rw [htext]
    exact Option.Rel.none
  · rw [catUint_eq s s' i hs']
    unfold numbered
    split
    · next h10 =>
      have hplaces := hten h10
      split
      · next hnil =>
        have hzero : text.length = 0 := by simpa using hnil
        have hbound := hholds.bound
        have hroom' := hholds.allocated
        have hsize' := hholds.size
        have hpos := sizeNeeded_pos i i
        have hout := storeDigits_outside (i + 1) s' (sizeNeeded i i - 1) i (sizeNeeded i i - 1)
          (by omega) (by omega) (by omega) hbound (by omega)
        rw [hout]
        exact Option.Rel.none
      · next hne =>
        have hpos : 0 < text.length := by
          apply List.length_pos_iff.mpr
          simpa using hne
        have hkept : s'.str.take text.dropLast.length = text.dropLast.map some := by
          have hstored := congrArg (List.take (text.length - 1)) hholds.stored
          rw [hholds.size, List.take_take, min_eq_left (by omega)] at hstored
          rw [List.length_dropLast, hstored, ← List.map_take, List.dropLast_eq_take]
        obtain ⟨t, ht, hresult⟩ := catUint_stored s' text text.dropLast i hholds hkept
          (by rw [List.length_dropLast]; omega) (by omega)
        rw [ht, Option.bind_some, fits_of_lt _ (length_lt_of_holds _ _ hresult)]
        exact Option.Rel.some hresult
    · next h10 =>
      have hplaces := hother h10
      obtain ⟨t, ht, hresult⟩ := catUint_stored s' text text i hholds
        (hholds.size ▸ hholds.stored) (by omega) (by omega)
      rw [ht, Option.bind_some, fits_of_lt _ (length_lt_of_holds _ _ hresult)]
      exact Option.Rel.some hresult

end LcfgString

/-! ### Searching -/

theorem rfindFrom_prefix (front back : List (Option UInt8)) (c : UInt8) (n : ℕ)
    (h : n ≤ front.length) :
    LcfgString.rfindFrom (front ++ back) c n = LcfgString.rfindFrom front c n := by
  induction n with
  | zero => rfl
  | succ n ih =>
    rw [LcfgString.rfindFrom, LcfgString.rfindFrom, List.getElem?_append_left (by omega),
      ih (by omega)]

theorem rfindFrom_absent (text : List UInt8) (c : UInt8) (n : ℕ) (h : c ∉ text) :
    LcfgString.rfindFrom (text.map some) c n = -1 := by
  induction n with
  | zero => rfl
  | succ n ih =>
    have hne : (text.map some)[n]? ≠ some (some c) := by
      intro heq
      have hmem := List.mem_of_getElem? heq
      simp only [List.mem_map, Option.some.injEq, exists_eq_right] at hmem
      exact h hmem
    rw [LcfgString.rfindFrom, if_neg hne, ih]

theorem rfindFrom_last (front word : List UInt8) (c : UInt8) (h : c ∉ word) :
    LcfgString.rfindFrom ((front ++ c :: word).map some) c (front ++ c :: word).length =
      front.length := by
  induction word using List.reverseRecOn with
  | nil =>
    have hplace : ((front ++ [c]).map some)[front.length]? = some (some c) := by simp
    rw [List.length_append, List.length_singleton, LcfgString.rfindFrom, if_pos hplace]
  | append_singleton word x ih =>
    have hlast : front ++ c :: (word ++ [x]) = (front ++ c :: word) ++ [x] := by simp
    have hne : (((front ++ c :: word) ++ [x]).map some)[(front ++ c :: word).length]? ≠
        some (some c) := by
      have hx : x ≠ c := fun heq => h (by simp [heq])
      rw [List.map_append, List.getElem?_append_right (by simp)]
      simpa using hx
    have hlen : ((front ++ c :: word) ++ [x]).length = (front ++ c :: word).length + 1 :=
      List.length_append
    rw [hlast, hlen, LcfgString.rfindFrom, if_neg hne, List.map_append,
      rfindFrom_prefix _ _ _ _ (by simp)]
    exact ih (fun hmem => h (by simp [hmem]))

theorem Holds.str_eq {s : LcfgString} {text : List UInt8} (h : Holds s text) :
    s.str = text.map some ++ s.str.drop s.size := by
  have hsplit := (List.take_append_drop s.size s.str).symm
  rwa [h.stored] at hsplit

theorem rfind_eq (s : LcfgString) (text : List UInt8) (c : UInt8) (h : Holds s text) :
    s.rfind c = LcfgString.rfindFrom (text.map some) c text.length := by
  rw [LcfgString.rfind, h.str_eq, h.size, rfindFrom_prefix _ _ _ _ (by simp)]

theorem findFrom_rest (text seen rest : List UInt8) (back : List (Option UInt8)) (c : UInt8)
    (htext : text = seen ++ rest) (hseen : c ∉ seen) :
    LcfgString.findFrom (text.map some ++ back) c text.length rest.length =
      if c ∈ text then (text.idxOf c : ℤ) else -1 := by
  induction rest generalizing seen with
  | nil =>
    rw [List.append_nil] at htext
    subst htext
    rw [if_neg hseen]
    rfl
  | cons x rest ih =>
    have hplace : text.length - (rest.length + 1) = seen.length := by
      rw [htext, List.length_append, List.length_cons]
      omega
    have hget : (text.map some ++ back)[seen.length]? = some (some x) := by
      rw [htext, List.getElem?_append_left (by simp)]
      simp
    rw [List.length_cons, LcfgString.findFrom, hplace, hget]
    by_cases hx : x = c
    · subst hx
      have hmem : x ∈ text := by simp [htext]
      have hidx : text.idxOf x = seen.length := by
        rw [htext, List.idxOf_append, if_neg hseen, List.idxOf_cons_self, Nat.zero_add]
      rw [if_pos rfl, if_pos hmem, hidx]
    · rw [if_neg (by simpa using hx)]
      apply ih (seen ++ [x]) (by simpa using htext)
      simpa [hseen] using Ne.symm hx

theorem find_eq (s : LcfgString) (text : List UInt8) (c : UInt8) (h : Holds s text) :
    s.find c = if c ∈ text then (text.idxOf c : ℤ) else -1 := by
  rw [LcfgString.find, h.str_eq, h.size]
  exact findFrom_rest text [] text _ c rfl (by simp)

/-- lcfg_string_cstr stores its NUL inside the block and leaves the text as it is; the
block begins with the text and the NUL. -/
def ReadsAs (s : LcfgString) (text : List UInt8) : Prop :=
  ∃ s', s.cstr = some s' ∧ Holds s' text ∧
    s'.str.take (text.length + 1) = (text ++ [0]).map some

theorem cstr_spec (s : LcfgString) (text : List UInt8) (h : Holds s text) : ReadsAs s text := by
  have hroom := h.room
  have hlen : (s.str.take s.size).length = text.length := by
    rw [h.stored, List.length_map]
  refine ⟨_, LcfgString.store_inside s s.size [0] (by rw [h.allocated]; exact hroom), ?_, ?_⟩
  · refine ⟨?_, h.size, ?_, h.room, h.doubled⟩
    · have hallocated := h.allocated
      simp only [List.length_append, List.length_take, List.length_drop, List.length_map,
        List.length_singleton]
      omega
    · simp only [List.append_assoc]
      rw [List.take_left' (by rw [hlen, h.size]), h.stored]
  · simp only
    rw [List.take_left' (by simp only [List.length_append, hlen]; rfl), h.stored, List.map_append]

/-! ### The path -/

theorem pathPop_spec (s : LcfgString) (text : List UInt8) (h : Holds s text) :
    Holds (pathPop s) (pop dot text) := by
  unfold pathPop
  rw [rfind_eq s text dot h]
  by_cases hdot : dot ∈ text
  · obtain ⟨front, word, rfl, hword⟩ := exists_last_split dot text hdot
    rw [rfindFrom_last front word dot hword, if_pos (by omega), pop_append_cons dot front word hword]
    have htrunc := LcfgString.trunc_spec s _ front.length h
    rwa [List.take_left] at htrunc
  · rw [rfindFrom_absent text dot text.length hdot, if_neg (by decide), pop_word dot text hdot]
    exact LcfgString.trunc_spec s text 0 h

/-- The path before a name or a number is added to it. -/
def dotted (path : List UInt8) : List UInt8 := if path.isEmpty then path else path ++ [dot]

theorem push_eq_dotted (path name : List UInt8) : push dot path name = dotted path ++ name := by
  by_cases hnil : path = []
  · rw [hnil]
    rfl
  · simp [push, dotted, hnil]

/-- PATH_PUSH_INT on the text. -/
def pushNumber (path : List UInt8) (i : ℕ) : Option (List UInt8) := numbered (dotted path) i

/-- A number that loses a place takes the place of the dot. -/
theorem pushNumber_eq (path : List UInt8) (i : ℕ) :
    pushNumber path i =
      if LeadingTen i then if path.isEmpty then none else some (path ++ decimal i)
      else some (push dot path (decimal i)) := by
  rw [push_eq_dotted]
  by_cases hnil : path = []
  · simp [hnil, pushNumber, numbered, dotted]
  · simp [hnil, pushNumber, numbered, dotted]

theorem pathDot_spec (s : LcfgString) (text : List UInt8) (h : Holds s text) :
    Option.Rel Holds (pathDot s) (fits (dotted text)) := by
  have hlen : s.len ≠ 0 ↔ text ≠ [] := by
    rw [LcfgString.len, h.size]
    exact List.length_eq_zero_iff.not
  unfold pathDot dotted
  by_cases hnil : text = []
  · subst hnil
    rw [if_neg (by simpa using hlen)]
    exact Option.Rel.some h
  · rw [if_pos (hlen.mpr hnil), if_neg (by simpa using hnil)]
    exact LcfgString.catChar_spec s text dot h

theorem rel_bind {r : Option LcfgString} {t : Option (List UInt8)}
    {f : LcfgString → Option LcfgString} {g : List UInt8 → Option (List UInt8)}
    (h : Option.Rel Holds r t)
    (hnext : ∀ s text, Holds s text → Option.Rel Holds (f s) (g text)) :
    Option.Rel Holds (r.bind f) (t.bind g) := by
  cases h with
  | none => exact Option.Rel.none
  | some h => exact hnext _ _ h

theorem pathPushStr_spec (s : LcfgString) (text name : List UInt8) (h : Holds s text) :
    Option.Rel Holds (pathPushStr s name) (fits (push dot text name)) := by
  have hfits : ((fits (dotted text)).bind fun t => fits (t ++ name)) =
      fits (dotted text ++ name) := by
    by_cases hlen : (dotted text).length < 2 ^ 31
    · rw [LcfgString.fits_of_lt _ hlen, Option.bind_some]
    · rw [LcfgString.fits_of_le _ (by omega), LcfgString.fits_of_le _ (by
        rw [List.length_append]
        omega)]
      rfl
  rw [push_eq_dotted, ← hfits]
  exact rel_bind (pathDot_spec s text h) fun s text h => LcfgString.catCstr_spec s text name h

theorem length_le_numbered (text result : List UInt8) (i : ℕ) (h : numbered text i = some result) :
    text.length ≤ result.length := by
  have hpos := decimal_length_pos i
  unfold numbered at h
  split at h
  · split at h
    · cases h
    · rw [← Option.some.inj h, List.length_append, List.length_dropLast]
      omega
  · rw [← Option.some.inj h, List.length_append]
    omega

theorem pathPushInt_spec (s : LcfgString) (text : List UInt8) (i : ℕ) (h : Holds s text) :
    Option.Rel Holds (pathPushInt s i) ((pushNumber text i).bind fits) := by
  have hfits : ((fits (dotted text)).bind fun t => (numbered t i).bind fits) =
      (numbered (dotted text) i).bind fits := by
    by_cases hlen : (dotted text).length < 2 ^ 31
    · rw [LcfgString.fits_of_lt _ hlen, Option.bind_some]
    · rw [LcfgString.fits_of_le _ (by omega)]
      cases hnumbered : numbered (dotted text) i with
      | none => rfl
      | some result =>
        have hle := length_le_numbered _ _ i hnumbered
        exact (LcfgString.fits_of_le result (by omega)).symm
  rw [pushNumber, ← hfits]
  exact rel_bind (pathDot_spec s text h) fun s text h => LcfgString.catUint_spec s text i h

/-! ### Runs -/

/-- A call that changes a string, with its arguments. -/
inductive Call where
  | set (cstr : List UInt8)
  | catCstr (cstr : List UInt8)
  | catChar (c : UInt8)
  | catUint (i : ℕ)
  | trunc (maxSize : ℕ)
  | newCopy
  | pathPushStr (name : List UInt8)
  | pathPushInt (i : ℕ)
  | pathPop
  deriving DecidableEq, Repr

def Call.run (s : LcfgString) : Call → Option LcfgString
  | .set cstr => s.set cstr
  | .catCstr cstr => s.catCstr cstr
  | .catChar c => s.catChar c
  | .catUint i => s.catUint i
  | .trunc maxSize => some (s.trunc maxSize)
  | .newCopy => some s.newCopy
  | .pathPushStr name => GrowingString.pathPushStr s name
  | .pathPushInt i => GrowingString.pathPushInt s i
  | .pathPop => some (GrowingString.pathPop s)

/-- What the call does to the text. -/
def Call.text (text : List UInt8) : Call → Option (List UInt8)
  | .set cstr => fits cstr
  | .catCstr cstr => fits (text ++ cstr)
  | .catChar c => fits (text ++ [c])
  | .catUint i => (numbered text i).bind fits
  | .trunc maxSize => some (text.take maxSize)
  | .newCopy => some text
  | .pathPushStr name => fits (push dot text name)
  | .pathPushInt i => (pushNumber text i).bind fits
  | .pathPop => some (pop dot text)

theorem call_spec (c : Call) (s : LcfgString) (text : List UInt8) (h : Holds s text) :
    Option.Rel Holds (c.run s) (c.text text) := by
  cases c with
  | set cstr => exact LcfgString.set_spec s text cstr h
  | catCstr cstr => exact LcfgString.catCstr_spec s text cstr h
  | catChar c => exact LcfgString.catChar_spec s text c h
  | catUint i => exact LcfgString.catUint_spec s text i h
  | trunc maxSize => exact Option.Rel.some (LcfgString.trunc_spec s text maxSize h)
  | newCopy => exact Option.Rel.some (LcfgString.newCopy_spec s text h)
  | pathPushStr name => exact pathPushStr_spec s text name h
  | pathPushInt i => exact pathPushInt_spec s text i h
  | pathPop => exact Option.Rel.some (pathPop_spec s text h)

def runCalls (s : LcfgString) : List Call → Option LcfgString
  | [] => some s
  | c :: calls => (c.run s).bind fun s => runCalls s calls

def textAfter (text : List UInt8) : List Call → Option (List UInt8)
  | [] => some text
  | c :: calls => (c.text text).bind fun text => textAfter text calls

theorem runCalls_spec (calls : List Call) (s : LcfgString) (text : List UInt8) (h : Holds s text) :
    Option.Rel Holds (runCalls s calls) (textAfter text calls) := by
  induction calls generalizing s text with
  | nil => exact Option.Rel.some h
  | cons c calls ih => exact rel_bind (call_spec c s text h) ih

/-- A string that was built by calls holds the text they build and is read as it. The
calls have no result exactly where a number is stored outside the block or the text
does not fit any block. -/
theorem growing_string_spec (calls : List Call) :
    Option.Rel (fun s text => Holds s text ∧ ReadsAs s text) (runCalls .new calls)
      (textAfter [] calls) := by
  have hrun := runCalls_spec calls .new [] holds_new
  generalize runCalls .new calls = s at hrun
  generalize textAfter [] calls = text at hrun
  cases hrun with
  | none => exact Option.Rel.none
  | some h => exact Option.Rel.some ⟨h, cstr_spec _ _ h⟩

/-- The tenth element of a list loses its dot, and its list is left with it. -/
example : textAfter [] [.pathPushStr [0x61], .pathPushInt 10] = some [0x61, 0x31, 0x30] ∧
    textAfter [] [.pathPushStr [0x61], .pathPushInt 10, .pathPop] = some [] := by decide

end OmapBootUtils.GrowingString
