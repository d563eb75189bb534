import OmapBootUtils.KermitFrame

/-!
The large data packet of ukermit, built under LARGE_PACKETS_ENABLE. Its header
carries the length in two digits base 95 and a check of its own, and the check at
the end covers header, header check and data.
-/
namespace OmapBootUtils.KermitLarge

open ScriptedRun LinkCalls KermitPacket KermitTransfer KermitReceiver KermitFrame

/-- MAX_CHUNK of the build with large packets. -/
def maxChunkLarge : ℕ := 500

/-- The header structure and the buffer that the packet function fills. -/
def packetLarge (signedChar : Bool) (buffer : List UInt8) (sequence : UInt8) :
    List UInt8 × List UInt8 :=
  let (out, dataSum) := escapeLoop signedChar buffer ([], 0)
  let sequenceNumber := tochar sequence.toNat
  let lengthNormal := tochar 0
  -- `Add to cover checksum`
  let newSize := out.length + 1
  let hi := UInt8.ofNat (newSize / 95)
  let lo := UInt8.ofInt (newSize - hi.toNat * 95)
  let lengthHi := tochar hi.toNat
  let lengthLo := tochar lo.toNat
  let sumPkt : ℤ := lengthNormal.toNat + sequenceNumber.toNat + dataType.toNat +
    lengthLo.toNat + lengthHi.toNat
  let headerChecksum := checkChar sumPkt
  let sum := dataSum + (sumPkt + headerChecksum.toNat)
  ([startChar, lengthNormal, sequenceNumber, dataType, lengthHi, lengthLo, headerChecksum],
    out ++ [checkChar sum, endChar])

def kSendDataPacketLarge (signedChar : Bool) (buffer : List UInt8) (sequence : UInt8)
    (a : Attempt) : Link ℤ :=
  if a.callocOk then do
    let packet := packetLarge signedChar buffer sequence
    s1Sendpacket packet.1 a.headerRet
    s1Sendpacket packet.2 a.bodyRet
    return 0
  else return -1

/-! ### Parts -/

/-- The parts of a large frame between START and END. -/
structure LargeParts where
  lengthNormal : UInt8
  sequenceNumber : UInt8
  packetType : UInt8
  lengthHi : UInt8
  lengthLo : UInt8
  headerChecksum : UInt8
  data : List UInt8
  checksum : UInt8

/-- tochar((sum + ((sum >> 6) & 0x03)) & 0x3f) of the unsigned bytes. -/
def kermitCheck (bytes : List UInt8) : UInt8 :=
  tochar ((byteSum bytes + (byteSum bytes >>> 6 &&& 3)) &&& 0x3F : ℕ)

namespace LargeParts

/-- The bytes the header checksum covers. -/
def header (f : LargeParts) : List UInt8 :=
  [f.lengthNormal, f.sequenceNumber, f.packetType, f.lengthHi, f.lengthLo]

/-- The bytes the checksum at the end covers. -/
def summed (f : LargeParts) : List UInt8 := f.header ++ f.headerChecksum :: f.data

def body (f : LargeParts) : List UInt8 := f.summed ++ [f.checksum]

/-- A large frame that carries this payload under this sequence number. -/
structure Carries (f : LargeParts) (payload : List UInt8) (sequence : ℕ) : Prop where
  marker : untochar f.lengthNormal = 0
  sequence : untochar f.sequenceNumber = sequence
  type : f.packetType = dataType
  hi_digit : untochar f.lengthHi < 95
  lo_digit : untochar f.lengthLo < 95
  length : untochar f.lengthHi * 95 + untochar f.lengthLo = (f.data ++ [f.checksum]).length
  headerCheck : f.headerChecksum = kermitCheck f.header
  check : f.checksum = kermitCheck f.summed
  data : unescape f.data = some payload
  end_last : endChar ∉ f.body

/-- A frame has no END inside when each of its fields and data bytes is printable. -/
theorem end_not_mem_body (f : LargeParts) (hheader : ∀ b ∈ f.header, 0x20 ≤ b)
    (hheaderCheck : 0x20 ≤ f.headerChecksum) (hdata : ∀ b ∈ f.data, 0x20 ≤ b)
    (hcheck : 0x20 ≤ f.checksum) : endChar ∉ f.body := by
  intro hmem
  have hspace : (0x20 : UInt8) ≤ endChar := by
    simp only [body, summed, List.mem_append, List.mem_cons, List.not_mem_nil, or_false] at hmem
    obtain (hin | hin | hin) | hin := hmem
    · exact hheader _ hin
    · exact hin ▸ hheaderCheck
    · exact hdata _ hin
    · exact hin ▸ hcheck
  exact absurd hspace (by decide)

end LargeParts

/-- The two digits of a length field. -/
def lengthDigits (newSize : ℕ) : UInt8 × UInt8 :=
  (tochar (newSize / 95 : ℕ), tochar (newSize % 95 : ℕ))

theorem lengthDigits_decode (newSize : ℕ) (h : newSize < 95 * 95) :
    untochar (lengthDigits newSize).1 = (newSize / 95 : ℕ) ∧
      untochar (lengthDigits newSize).2 = (newSize % 95 : ℕ) := by
  have hhi : newSize / 95 < 95 := Nat.div_lt_of_lt_mul h
  constructor
  · exact untochar_tochar _ (by omega) (by omega)
  · exact untochar_tochar _ (by omega) (by omega)

/-- The frame the packet function builds, in parts. -/
def largeParts (payload : List UInt8) (sequence : UInt8) : LargeParts :=
  let digits := lengthDigits ((escape payload).length + 1)
  let header := [tochar 0, tochar sequence.toNat, dataType, digits.1, digits.2]
  { lengthNormal := tochar 0
    sequenceNumber := tochar sequence.toNat
    packetType := dataType
    lengthHi := digits.1
    lengthLo := digits.2
    headerChecksum := checkChar (byteSum header)
    data := escape payload
    checksum := checkChar (byteSum (header ++ checkChar (byteSum header) :: escape payload)) }

/-- The digits are computed in unsigned chars, which hold them. -/
theorem digits_fit (newSize : ℕ) (h : newSize < 95 * 95) :
    tochar (UInt8.ofNat (newSize / 95)).toNat = (lengthDigits newSize).1 ∧
      tochar (UInt8.ofInt (newSize - (UInt8.ofNat (newSize / 95)).toNat * 95)).toNat =
        (lengthDigits newSize).2 := by
  have hhi : newSize / 95 < 95 := Nat.div_lt_of_lt_mul h
  have hhiByte : (UInt8.ofNat (newSize / 95)).toNat = newSize / 95 := by
    rw [UInt8.toNat_ofNat']
    omega
  have hrest : (newSize : ℤ) - (newSize / 95 : ℕ) * 95 = (newSize % 95 : ℕ) := by omega
  have hloByte : (UInt8.ofInt ((newSize % 95 : ℕ) : ℤ)).toNat = newSize % 95 := by
    unfold UInt8.ofInt
    rw [UInt8.toNat_ofNat']
    omega
  rw [hhiByte, hrest, hloByte]
  exact ⟨rfl, rfl⟩

theorem packetLarge_eq (signedChar : Bool) (payload : List UInt8) (sequence : UInt8)
    (h : (escape payload).length + 1 < 95 * 95) :
    (packetLarge signedChar payload sequence).1 ++ (packetLarge signedChar payload sequence).2 =
      startChar :: ((largeParts payload sequence).body ++ [endChar]) := by
  obtain ⟨hhi, hlo⟩ := digits_fit ((escape payload).length + 1) h
  have hsum := charSum_emod signedChar (escape payload)
  unfold packetLarge
  rw [escapeLoop_eq]
  simp only [List.nil_append, Int.zero_add, hhi, hlo]
  -- the header sum adds the low digit before the high one
  have hheader : ((tochar 0).toNat + (tochar sequence.toNat).toNat + dataType.toNat +
      (lengthDigits ((escape payload).length + 1)).2.toNat +
        (lengthDigits ((escape payload).length + 1)).1.toNat : ℤ) =
      (byteSum [tochar 0, tochar sequence.toNat, dataType,
        (lengthDigits ((escape payload).length + 1)).1,
        (lengthDigits ((escape payload).length + 1)).2] : ℕ) := by
    simp only [byteSum, List.map_cons, List.map_nil, List.sum_cons, List.sum_nil, Nat.cast_add,
      Nat.cast_zero]
    omega
  simp only [hheader, largeParts, LargeParts.body, LargeParts.summed, LargeParts.header,
    List.cons_append, List.nil_append, List.append_assoc, List.cons.injEq, true_and,
    List.append_cancel_left_eq, and_true]
  apply checkChar_congr
  simp only [byteSum, List.map_cons, List.map_nil, List.sum_cons, List.sum_nil, Nat.cast_add,
    Nat.cast_zero] at hsum ⊢
  omega

/-- What is sent for a payload of at most MAX_CHUNK bytes is a large frame that
carries it. -/
theorem large_frame_carries_payload (signedChar : Bool) (payload : List UInt8)
    (sequence : UInt8) (a : Attempt) (hpayload : payload.length ≤ maxChunkLarge)
    (hsequence : sequence.toNat ≤ 127) (halloc : a.callocOk = true) :
    ∃ f : LargeParts,
      given (kSendDataPacketLarge signedChar payload sequence a).log =
        startChar :: (f.body ++ [endChar]) ∧ f.Carries payload sequence.toNat := by
  have hlen : (escape payload).length + 1 < 95 * 95 := by
    have hle := escape_length_le payload
    unfold maxChunkLarge at hpayload
    omega
  obtain ⟨hhi, hlo⟩ := lengthDigits_decode _ hlen
  have hhiBound : ((escape payload).length + 1) / 95 < 95 := Nat.div_lt_of_lt_mul hlen
  refine ⟨largeParts payload sequence, ?_, ?_⟩
  · rw [← packetLarge_eq signedChar payload sequence hlen, kSendDataPacketLarge, if_pos halloc]
    simp [s1Sendpacket, given, LinkCall.given]
  · constructor
    case marker => exact untochar_tochar 0 (by omega) (by omega)
    case sequence => exact untochar_tochar _ (by omega) (by omega)
    case type => rfl
    case hi_digit =>
      change untochar (lengthDigits _).1 < 95
      omega
    case lo_digit =>
      change untochar (lengthDigits _).2 < 95
      omega
    case length =>
      change untochar (lengthDigits _).1 * 95 + untochar (lengthDigits _).2 =
        ((escape payload ++ [_]).length : ℤ)
      rw [hhi, hlo, List.length_append, List.length_singleton]
      omega
    case headerCheck => exact checkChar_natCast _
    case check => exact checkChar_natCast _
    case data => exact unescape_escape payload
    case end_last =>
      have hcheck : ∀ sum, 0x20 ≤ checkChar sum := fun sum =>
        UInt8.le_iff_toNat_le.mpr (checkChar_bounds sum).1
      apply LargeParts.end_not_mem_body
      · intro b hb
        simp only [LargeParts.header, largeParts, lengthDigits, List.mem_cons, List.not_mem_nil,
          or_false] at hb
        obtain rfl | rfl | rfl | rfl | rfl := hb
        · decide
        · exact space_le_tochar _ (by omega) (by omega)
        · decide
        · exact space_le_tochar _ (by omega) (by omega)
        · exact space_le_tochar _ (by omega) (by omega)
      · exact hcheck _
      · exact space_le_escape payload
      · exact hcheck _

/-- A carriage return in a large packet under sequence number 5. -/
theorem large_frame_carries_return :
    ∃ f : LargeParts,
      given (kSendDataPacketLarge true [0x0D] 5 ⟨true, 7, 4, []⟩).log =
        startChar :: (f.body ++ [endChar]) ∧ f.Carries [0x0D] 5 :=
  large_frame_carries_payload true [0x0D] 5 ⟨true, 7, 4, []⟩ (by decide) (by decide) rfl

end OmapBootUtils.KermitLarge
