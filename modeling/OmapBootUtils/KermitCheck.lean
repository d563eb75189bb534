import OmapBootUtils.FlippedBits
import OmapBootUtils.KermitFrame
import Mathlib.Tactic.IntervalCases

/-!
What the Kermit check finds. It folds the two high bits of the sum into the six low
ones; a sum that is a power of two up or down has another check, so no single flipped
bit goes unnoticed, in a data packet or in an acknowledgement.
-/
namespace OmapBootUtils.KermitCheck

open ScriptedRun LinkCalls KermitPacket KermitTransfer KermitReceiver KermitFrame FlippedBits

/-- Sums a power of two apart, below the folded bits, among them, or with a carry. -/
theorem checkChar_up_ne (s : ℤ) (k : ℕ) (hk : k < 8) :
    checkChar (s + 2 ^ k) ≠ checkChar s := by
  have hfold : ∀ s : ℤ, ((checkChar s).toNat : ℤ) = (s + s / 64 % 4) % 64 + 32 := by
    intro s
    unfold checkChar
    rw [Int.shiftRight_eq_div_pow]
    exact toNat_tochar _ (by omega) (by omega)
  intro h
  have hvalue := congrArg (fun c : UInt8 => (c.toNat : ℤ)) h
  simp only [hfold] at hvalue
  -- the high bits go up by at most two, modulo four, and never cancel the low ones
  have hhigh : (s + 2 ^ k) / 64 = s / 64 ∨ (s + 2 ^ k) / 64 = s / 64 + 1 ∨
      (s + 2 ^ k) / 64 = s / 64 + 2 := by
    interval_cases k <;> omega
  obtain hq | hq | hq := hhigh
  · rw [hq] at hvalue
    interval_cases k <;> omega
  · rw [hq] at hvalue
    interval_cases k <;> omega
  · rw [hq] at hvalue
    interval_cases k <;> omega

theorem checkChar_ne_of_apart (s t k : ℕ) (hk : k < 8) (h : Apart k s t) :
    checkChar s ≠ checkChar t := by
  cases h with
  | inl hup =>
    rw [hup, Nat.cast_add, Nat.cast_pow]
    exact checkChar_up_ne t k hk
  | inr hdown =>
    rw [hdown, Nat.cast_add, Nat.cast_pow]
    exact (checkChar_up_ne s k hk).symm

theorem byteSum_flipAt_apart (bytes : List UInt8) (p k : ℕ) (hp : p < bytes.length)
    (hk : k < 8) : Apart k (byteSum (flipAt bytes p k)) (byteSum bytes) :=
  sum_flipAt_apart bytes p k hp hk

/-! ### Data packets -/

/-- The check over the bytes between START and the checksum. -/
def recomputed (packet : List UInt8) : UInt8 :=
  checkChar (byteSum (packet.drop 1).dropLast.dropLast)

/-- The byte before END. -/
def checksumByte (packet : List UInt8) : UInt8 := packet.getD (packet.length - 2) 0

/-- The bytes from length through data. -/
def summedBytes (payload : List UInt8) (sequence : UInt8) : List UInt8 :=
  tochar ((escape payload).length + 3) :: tochar sequence.toNat :: dataType :: escape payload

theorem recomputed_parts (start check eol : UInt8) (summed : List UInt8) :
    recomputed (start :: (summed ++ [check, eol])) = checkChar (byteSum summed) := by
  have hinit : (summed ++ [check, eol]).dropLast.dropLast = summed := by
    rw [List.dropLast_append_of_ne_nil (by simp), List.dropLast_append_of_ne_nil (by simp)]
    simp
  rw [recomputed, List.drop_one, List.tail_cons, hinit]

theorem checksumByte_parts (start check eol : UInt8) (summed : List UInt8) :
    checksumByte (start :: (summed ++ [check, eol])) = check := by
  have hpos : (start :: (summed ++ [check, eol])).length - 2 = summed.length + 1 := by simp
  rw [checksumByte, hpos]
  simp [List.getD_eq_getElem?_getD]

/-- The packet as START, the bytes under the check, the check and END. -/
theorem frame_parts (payload : List UInt8) (sequence : UInt8) :
    frame payload sequence =
      startChar :: (summedBytes payload sequence ++
        [checkChar (byteSum (summedBytes payload sequence)), endChar]) := by
  simp [frame, frameBody, summedBytes]

/-- A packet with the right check loses it by a flip between START and END. -/
theorem flipped_packet_detected (start check eol : UInt8) (summed : List UInt8)
    (hcheck : check = checkChar (byteSum summed)) (p k : ℕ) (hp : 1 ≤ p)
    (hlast : p ≤ summed.length + 1) (hk : k < 8) :
    recomputed (flipAt (start :: (summed ++ [check, eol])) p k) ≠
      checksumByte (flipAt (start :: (summed ++ [check, eol])) p k) := by
  obtain ⟨q, rfl⟩ := Nat.exists_eq_add_of_le' hp
  rw [flipAt_cons]
  by_cases hq : q < summed.length
  · rw [flipAt_append_left summed _ q k hq, recomputed_parts, checksumByte_parts, hcheck]
    exact checkChar_ne_of_apart _ _ k hk (byteSum_flipAt_apart summed q k hq hk)
  · obtain rfl : q = summed.length := by omega
    rw [flipAt_append_here, recomputed_parts, checksumByte_parts, ← hcheck]
    exact (flipBit_ne check k hk).symm

/-! ### Acknowledgements -/

/-- The checksum byte of the reply is the check of its length, sequence and type. -/
def Checked (reply : List UInt8) : Prop :=
  (KermitAck.ofBytes reply).checksum = checkChar (KermitAck.ofBytes reply).sum

/-- Only a reply with a checksum byte is checked. -/
theorem Checked.length {reply : List UInt8} (h : Checked reply) : 5 ≤ reply.length := by
  by_contra hshort
  have hbad := ackResult_short true 0 reply (Nat.lt_of_not_le hshort)
  have hgood : ackResult true 0 (KermitAck.ofBytes reply) ≠ chkError := by
    have hsame := mt (checksum_ne_iff true (KermitAck.ofBytes reply)).mp (not_not.mpr h)
    unfold ackResult
    rw [if_neg hsame]
    split
    · decide
    · split
      · decide
      · split <;> decide
  exact hgood hbad

/-- A flip of the length, sequence or type byte changes their sum, one of the checksum
byte the checksum. -/
theorem flipped_reply_unchecked (reply : List UInt8) (h : Checked reply) (p k : ℕ)
    (hp : 1 ≤ p) (hp' : p ≤ 4) (hk : k < 8) : ¬ Checked (flipAt reply p k) := by
  have hlen := h.length
  have hself := getD_flipAt_self reply p k (by omega)
  have hother : ∀ i, p ≠ i → (flipAt reply p k).getD i 0 = reply.getD i 0 := fun i hi =>
    getD_flipAt_other reply p i k hi
  have hflip := flipBit_apart (reply.getD p 0) k hk
  unfold Checked KermitAck.sum KermitAck.ofBytes at h ⊢
  simp only [← Nat.cast_add] at h ⊢
  by_cases hsum : p = 4
  · subst hsum
    rw [hself, hother 1 (by omega), hother 2 (by omega), hother 3 (by omega), ← h]
    exact flipBit_ne _ k hk
  · rw [hother 4 hsum, h]
    apply (checkChar_ne_of_apart _ _ k hk _).symm
    obtain rfl | rfl | rfl : p = 1 ∨ p = 2 ∨ p = 3 := by omega
    · rw [hself, hother 2 (by omega), hother 3 (by omega)]
      unfold Apart at hflip ⊢
      omega
    · rw [hself, hother 1 (by omega), hother 3 (by omega)]
      unfold Apart at hflip ⊢
      omega
    · rw [hself, hother 1 (by omega), hother 2 (by omega)]
      unfold Apart at hflip ⊢
      omega

theorem unchecked_chkError (signedChar : Bool) (seqNum : ℤ) (reply : List UInt8)
    (h : ¬ Checked reply) :
    (kermitAckType signedChar seqNum reply).status = .done chkError := by
  rw [kermitAckType_eq, ackResult, if_pos ((checksum_ne_iff signedChar _).mpr h)]
  rfl

/-- No single flipped bit between START and END passes the check of a packet that was
sent, and none from length to checksum that of a reply. -/
theorem single_flip_detected (signedChar : Bool) (payload : List UInt8) (sequence : UInt8)
    (a : Attempt) (halloc : a.callocOk = true) :
    (∀ p k, 1 ≤ p →
      p + 1 < (given (kSendDataPacketSmall signedChar payload sequence a).log).length → k < 8 →
        recomputed (flipAt (given (kSendDataPacketSmall signedChar payload sequence a).log) p k) ≠
          checksumByte
            (flipAt (given (kSendDataPacketSmall signedChar payload sequence a).log) p k)) ∧
    ∀ reply, Checked reply → ∀ seqNum p k, 1 ≤ p → p ≤ 4 → k < 8 →
      (kermitAckType signedChar seqNum (flipAt reply p k)).status = .done chkError := by
  constructor
  · intro p k hp hlast hk
    rw [given_packetSmall signedChar payload sequence a halloc] at hlast ⊢
    have hframe := frame_parts payload sequence
    rw [hframe] at hlast ⊢
    apply flipped_packet_detected _ _ _ _ rfl p k hp _ hk
    simp only [List.length_cons, List.length_append, List.length_nil] at hlast ⊢
    omega
  · intro reply h seqNum p k hp hp' hk
    exact unchecked_chkError signedChar seqNum _ (flipped_reply_unchecked reply h p k hp hp' hk)

/-- One payload byte under sequence number 5, and the reply of a receiver to it. -/
theorem single_flip_detected_at :
    (∀ p k, 1 ≤ p →
      p + 1 < (given (kSendDataPacketSmall true [0x41] 5 ⟨true, 4, 4, []⟩).log).length → k < 8 →
        recomputed (flipAt (given (kSendDataPacketSmall true [0x41] 5 ⟨true, 4, 4, []⟩).log) p k) ≠
          checksumByte
            (flipAt (given (kSendDataPacketSmall true [0x41] 5 ⟨true, 4, 4, []⟩).log) p k)) ∧
    ∀ reply, Checked reply → ∀ seqNum p k, 1 ≤ p → p ≤ 4 → k < 8 →
      (kermitAckType true seqNum (flipAt reply p k)).status = .done chkError :=
  single_flip_detected true [0x41] 5 ⟨true, 4, 4, []⟩ rfl

end OmapBootUtils.KermitCheck
