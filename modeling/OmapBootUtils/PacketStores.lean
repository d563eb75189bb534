import OmapBootUtils.KermitPacket

/-!
The packet function of ukermit with its allocation. Every byte goes to the next
place of a buffer of (size * 2) + 3 bytes, computed in unsigned int; a store
behind the buffer, or a read behind the array of the caller, is undefined.
-/
namespace OmapBootUtils.PacketStores

open KermitPacket

/-- The argument of calloc. -/
def allocSize (size : UInt32) : UInt32 := size * 2 + 3

/-- A store at new_size, which is then counted up. -/
def store (alloc : ℕ) (out : List UInt8) (b : UInt8) : Option (List UInt8) :=
  if out.length < alloc then some (out ++ [b]) else none

/-- The loop over the payload with `left` bytes to go. -/
def storeLoop (signedChar : Bool) (alloc : ℕ) :
    ℕ → List UInt8 → List UInt8 × ℤ → Option (List UInt8 × ℤ)
  | 0, _, acc => some acc
  | _ + 1, [], _ => none
  | left + 1, b :: rest, (out, sum) =>
      if shouldEscape b then do
        let out ← store alloc out kEscapeChar
        let sum := sum + charValue signedChar kEscapeChar
        let out ← store alloc out (kEscape b)
        storeLoop signedChar alloc left rest (out, sum + charValue signedChar (kEscape b))
      else do
        let out ← store alloc out b
        storeLoop signedChar alloc left rest (out, sum + charValue signedChar b)

/-- k_send_data_packet_small up to its calls of s1_sendpacket. -/
def encodeSmall (signedChar : Bool) (buffer : List UInt8) (size : UInt32) (sequence : UInt8) :
    Option (List UInt8 × List UInt8) := do
  let alloc := (allocSize size).toNat
  let (out, dataSum) ← storeLoop signedChar alloc size.toNat buffer ([], 0)
  let sequenceNumber := tochar sequence.toNat
  let lengthNormal := tochar (out.length + 3)
  let sum := dataSum + (lengthNormal.toNat + sequenceNumber.toNat + dataType.toNat)
  let out ← store alloc out (checkChar sum)
  let out ← store alloc out endChar
  return ([startChar, lengthNormal, sequenceNumber, dataType], out)

variable (signedChar : Bool)

/-! ### The loop -/

/-- Two stores in a row need two places. -/
theorem store_store {α : Type} (alloc : ℕ) (out : List UInt8) (a b : UInt8)
    (next : List UInt8 → Option α) :
    ((store alloc out a).bind fun out => (store alloc out b).bind next) =
      if out.length + 2 ≤ alloc then next (out ++ [a, b]) else none := by
  unfold store
  by_cases hfirst : out.length < alloc
  · by_cases hsecond : out.length + 1 < alloc
    · simp [hfirst, hsecond, show out.length + 2 ≤ alloc by omega]
    · simp [hfirst, hsecond, show ¬ out.length + 2 ≤ alloc by omega]
  · simp [hfirst, show ¬ out.length + 2 ≤ alloc by omega]

/-- A byte takes one place, or two if it is escaped. -/
theorem storeLoop_cons (alloc left : ℕ) (b : UInt8) (rest out : List UInt8) (sum : ℤ) :
    storeLoop signedChar alloc (left + 1) (b :: rest) (out, sum) =
      if out.length + (escapeByte b).length ≤ alloc then
        storeLoop signedChar alloc left rest
          (out ++ escapeByte b, sum + charSum signedChar (escapeByte b))
      else none := by
  rw [storeLoop]
  by_cases hb : shouldEscape b
  · simp only [hb, if_true, escapeByte, Option.bind_eq_bind, store_store, charSum]
    simp [Int.add_assoc]
  · simp only [hb, escapeByte, store, charSum]
    by_cases hfits : out.length < alloc
    · simp [hfits, Nat.succ_le_of_lt hfits]
    · simp [hfits, show ¬ out.length + 1 ≤ alloc by omega]

/-- The loop gets through exactly if the payload lies in the caller's array and its
escaped form in the buffer. -/
theorem storeLoop_eq (alloc left : ℕ) (buffer out : List UInt8) (sum : ℤ)
    (hout : out.length ≤ alloc) :
    storeLoop signedChar alloc left buffer (out, sum) =
      if left ≤ buffer.length ∧ out.length + (escape (buffer.take left)).length ≤ alloc then
        some (out ++ escape (buffer.take left),
          sum + charSum signedChar (escape (buffer.take left)))
      else none := by
  induction left generalizing buffer out sum with
  | zero => simp [storeLoop, escape, charSum, hout]
  | succ left ih =>
    cases buffer with
    | nil => simp [storeLoop]
    | cons b rest =>
      have hescape : escape ((b :: rest).take (left + 1)) =
          escapeByte b ++ escape (rest.take left) := by
        rw [List.take_succ_cons, escape, List.flatMap_cons, ← escape]
      have hsum : charSum signedChar (escapeByte b ++ escape (rest.take left)) =
          charSum signedChar (escapeByte b) + charSum signedChar (escape (rest.take left)) := by
        simp [charSum]
      rw [storeLoop_cons, hescape, hsum, List.length_cons, List.length_append]
      by_cases hfits : out.length + (escapeByte b).length ≤ alloc
      · rw [if_pos hfits, ih rest _ _ (by simpa using hfits), List.length_append,
          List.append_assoc, Int.add_assoc, Nat.add_assoc]
        simp only [Nat.add_le_add_iff_right]
      · rw [if_neg hfits, if_neg (by omega)]

/-! ### The packet -/

/-- The packet is built exactly if payload, checksum and end lie in the allocation. -/
theorem encodeSmall_eq (buffer : List UInt8) (size : UInt32) (sequence : UInt8) :
    encodeSmall signedChar buffer size sequence =
      if size.toNat ≤ buffer.length ∧
          (escape (buffer.take size.toNat)).length + 2 ≤ (allocSize size).toNat then
        some (packetSmall signedChar (buffer.take size.toNat) sequence)
      else none := by
  have hempty : ([] : List UInt8).length ≤ (allocSize size).toNat := Nat.zero_le _
  rw [encodeSmall, storeLoop_eq signedChar _ _ buffer [] 0 hempty, packetSmall, escapeLoop_eq]
  simp only [List.length_nil, Nat.zero_add, List.nil_append, Int.zero_add]
  generalize escape (buffer.take size.toNat) = data
  by_cases hread : size.toNat ≤ buffer.length
  · by_cases hdata : data.length ≤ (allocSize size).toNat
    · simp only [hread, hdata, and_self, if_true, Option.bind_eq_bind, Option.bind_some,
        store_store, true_and]
      rfl
    · simp [hread, hdata, show ¬ data.length + 2 ≤ (allocSize size).toNat by omega]
  · simp [hread]

/-- The allocation of a chunk does not wrap. -/
theorem allocSize_toNat (size : UInt32) (h : size.toNat ≤ maxChunk) :
    (allocSize size).toNat = size.toNat * 2 + 3 := by
  have hmax : maxChunk = 100 := rfl
  rw [allocSize, UInt32.toNat_add, UInt32.toNat_mul]
  simp
  omega

/-- Two places for each byte of a chunk and three more hold the packet. -/
theorem encodeSmall_of_le (buffer : List UInt8) (size : UInt32) (sequence : UInt8)
    (hmax : size.toNat ≤ maxChunk) (hread : size.toNat ≤ buffer.length) :
    encodeSmall signedChar buffer size sequence =
      some (packetSmall signedChar (buffer.take size.toNat) sequence) := by
  have hgrowth := escape_length_le (buffer.take size.toNat)
  rw [List.length_take, Nat.min_eq_left hread] at hgrowth
  rw [encodeSmall_eq, if_pos ⟨hread, by rw [allocSize_toNat size hmax]; omega⟩]

theorem allocSize_wraps : allocSize 0xFFFFFFFF = 1 := by decide

/-- A single byte does not hold the end of a packet. -/
theorem encodeSmall_wrapped (buffer : List UInt8) (sequence : UInt8) :
    encodeSmall signedChar buffer 0xFFFFFFFF sequence = none := by
  rw [encodeSmall_eq, allocSize_wraps, if_neg]
  rintro ⟨_, hfits⟩
  have : (1 : UInt32).toNat = 1 := rfl
  omega

end OmapBootUtils.PacketStores
