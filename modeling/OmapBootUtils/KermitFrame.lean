import OmapBootUtils.KermitReceiver
import Mathlib.Data.Nat.Bitwise

/-!
One small packet on the wire. What k_send_data_packet_small sends has START and
END at its two ends only, fields that decode to what they stand for, and a check
that folds the sum of the unsigned bytes on any host.
-/
namespace OmapBootUtils.KermitFrame

open ScriptedRun LinkCalls KermitPacket KermitTransfer KermitReceiver

/-- The parts of a frame between START and END. -/
structure FrameParts where
  lengthNormal : UInt8
  sequenceNumber : UInt8
  packetType : UInt8
  data : List UInt8
  checksum : UInt8

namespace FrameParts

/-- The bytes from length through data, which the checksum covers. -/
def summed (f : FrameParts) : List UInt8 :=
  f.lengthNormal :: f.sequenceNumber :: f.packetType :: f.data

def body (f : FrameParts) : List UInt8 := f.summed ++ [f.checksum]

/-- A frame that carries this payload under this sequence number. -/
structure Carries (f : FrameParts) (payload : List UInt8) (sequence : ℕ) : Prop where
  length : untochar f.lengthNormal =
    ([f.sequenceNumber, f.packetType] ++ f.data ++ [f.checksum]).length
  sequence : untochar f.sequenceNumber = sequence
  type : f.packetType = dataType
  data : unescape f.data = some payload
  end_last : endChar ∉ f.body
  start_first : startChar ∉ f.body ++ [endChar]
  check : f.checksum =
    tochar ((byteSum f.summed + (byteSum f.summed >>> 6 &&& 3)) &&& 0x3F : ℕ)

end FrameParts

/-- On the unsigned sum the folding is the one on naturals. -/
theorem checkChar_natCast (s : ℕ) :
    checkChar s = tochar ((s + (s >>> 6 &&& 3)) &&& 0x3F : ℕ) := by
  have hlow : s >>> 6 &&& 3 = (s >>> 6) % 4 := Nat.and_two_pow_sub_one_eq_mod _ 2
  have hfold : (s + (s >>> 6) % 4) &&& 0x3F = (s + (s >>> 6) % 4) % 64 :=
    Nat.and_two_pow_sub_one_eq_mod _ 6
  rw [hlow, hfold, checkChar]
  rfl

/-- The two buffers handed to the port, one after the other. -/
theorem given_packetSmall (signedChar : Bool) (payload : List UInt8) (sequence : UInt8)
    (a : Attempt) (h : a.callocOk = true) :
    given (kSendDataPacketSmall signedChar payload sequence a).log = frame payload sequence := by
  rw [kSendDataPacketSmall, if_pos h, ← packetSmall_append signedChar]
  simp [s1Sendpacket, given, LinkCall.given]

/-- What is sent for a payload of at most MAX_CHUNK bytes is a frame that carries it. -/
theorem frame_carries_payload (signedChar : Bool) (payload : List UInt8) (sequence : UInt8)
    (a : Attempt) (hpayload : payload.length ≤ maxChunk) (hsequence : sequence.toNat ≤ 127)
    (halloc : a.callocOk = true) :
    ∃ f : FrameParts,
      given (kSendDataPacketSmall signedChar payload sequence a).log =
        startChar :: (f.body ++ [endChar]) ∧ f.Carries payload sequence.toNat := by
  have hlen := escape_length_bound payload hpayload
  have hspace := space_le_frameBody payload sequence hpayload (by omega)
  refine ⟨⟨tochar ((escape payload).length + 3), tochar sequence.toNat, dataType, escape payload,
    checkChar (byteSum (tochar ((escape payload).length + 3) :: tochar sequence.toNat ::
      dataType :: escape payload))⟩, ?_, ?_, ?_, rfl, unescape_escape payload, ?_, ?_, ?_⟩
  · rw [given_packetSmall signedChar payload sequence a halloc]
    rfl
  · rw [untochar_tochar _ (by omega) (by omega)]
    simp
    omega
  · exact untochar_tochar _ (by omega) (by omega)
  · intro hmem
    exact ne_endChar_of_space_le _ (hspace endChar hmem) rfl
  · intro hmem
    rcases List.mem_append.mp hmem with hbody | hend
    · exact absurd (hspace startChar hbody) (by decide)
    · exact absurd hend (by decide)
  · exact checkChar_natCast _

/-- A carriage return under sequence number 5. -/
theorem frame_carries_return :
    ∃ f : FrameParts,
      given (kSendDataPacketSmall true [0x0D] 5 ⟨true, 4, 4, []⟩).log =
        startChar :: (f.body ++ [endChar]) ∧ f.Carries [0x0D] 5 :=
  frame_carries_payload true [0x0D] 5 ⟨true, 4, 4, []⟩ (by decide) (by decide) rfl

end OmapBootUtils.KermitFrame
