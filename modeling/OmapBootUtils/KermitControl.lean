import OmapBootUtils.KermitFrame
import Mathlib.Data.List.Count

/-!
Control characters inside a small packet. Escaping keeps them out of the data and
the check is printable, but tochar turns 95 into 127: a length field of 95 and the
sequence number 95 travel as DEL.
-/
namespace OmapBootUtils.KermitControl

open ScriptedRun LinkCalls KermitPacket KermitTransfer KermitReceiver KermitFrame

/-- `all characters 0 to 31 and 127 ASCII code is considered control characters`. -/
def Control (b : UInt8) : Prop := b.toNat < 32 ∨ b.toNat = 127

instance (b : UInt8) : Decidable (Control b) := inferInstanceAs (Decidable (_ ∨ _))

/-- The bytes of a packet between its first and its last one. -/
def interior (packet : List UInt8) : List UInt8 := (packet.drop 1).dropLast

theorem interior_frame (payload : List UInt8) (sequence : UInt8) :
    interior (frame payload sequence) = frameBody payload sequence := by
  simp [interior, frame]

theorem control_tochar (x : ℤ) (h0 : 0 ≤ x) (h1 : x < 224) : Control (tochar x) ↔ x = 95 := by
  have h := toNat_tochar x h0 h1
  unfold Control
  omega

theorem checkChar_not_control (sum : ℤ) : ¬ Control (checkChar sum) := by
  have h := checkChar_bounds sum
  unfold Control
  omega

theorem kEscape_not_control (b : UInt8) (h : shouldEscape b) : ¬ Control (kEscape b) :=
  byte_forall (fun b => shouldEscape b → ¬ Control (kEscape b)) (by decide +kernel) b h

theorem not_control_of_not_shouldEscape (b : UInt8) (h : ¬ shouldEscape b) : ¬ Control b :=
  byte_forall (fun b => ¬ shouldEscape b → ¬ Control b) (by decide +kernel) b h

theorem escape_not_control (payload : List UInt8) : ∀ b ∈ escape payload, ¬ Control b := by
  intro b hb
  obtain ⟨a, -, hba⟩ := List.mem_flatMap.mp hb
  unfold escapeByte at hba
  split at hba
  case isTrue ha =>
    simp only [List.mem_cons, List.not_mem_nil, or_false] at hba
    cases hba with
    | inl hmark =>
      rw [hmark]
      decide
    | inr hescaped =>
      rw [hescaped]
      exact kEscape_not_control a ha
  case isFalse ha =>
    rw [List.mem_singleton.mp hba]
    exact not_control_of_not_shouldEscape a ha

/-- Every escaped byte takes one place more. -/
theorem escape_length (payload : List UInt8) :
    (escape payload).length = payload.length + payload.countP shouldEscape := by
  induction payload with
  | nil => rfl
  | cons b rest ih =>
    simp only [escape, List.flatMap_cons, List.length_append, List.length_cons,
      List.countP_cons] at ih ⊢
    by_cases hb : shouldEscape b
    · simp only [escapeByte, hb, if_true, List.length_cons, List.length_nil]
      omega
    · simp only [escapeByte, hb, Bool.false_eq_true, if_false, List.length_cons, List.length_nil]
      omega

/-- Of the body of a frame only the length and the sequence can be control characters. -/
theorem frameBody_control (payload : List UInt8) (sequence : UInt8)
    (hpayload : payload.length ≤ maxChunk) (hsequence : sequence.toNat ≤ 127) :
    (∃ b ∈ frameBody payload sequence, Control b) ↔
      payload.length + payload.countP shouldEscape = 92 ∨ sequence.toNat = 95 := by
  have hlen := escape_length_bound payload hpayload
  have hcount := escape_length payload
  have hlength := control_tochar ((escape payload).length + 3) (by omega) (by omega)
  have hseq := control_tochar sequence.toNat (by omega) (by omega)
  constructor
  · intro h
    obtain ⟨b, hb, hcontrol⟩ := h
    simp only [frameBody, List.mem_cons, List.mem_append, List.not_mem_nil, or_false] at hb
    obtain rfl | rfl | rfl | hdata | rfl := hb
    · have := hlength.mp hcontrol
      omega
    · have := hseq.mp hcontrol
      omega
    · exact absurd hcontrol (by decide)
    · exact absurd hcontrol (escape_not_control payload b hdata)
    · exact absurd hcontrol (checkChar_not_control _)
  · intro h
    cases h with
    | inl hsize =>
      refine ⟨tochar ((escape payload).length + 3), by simp [frameBody], hlength.mpr ?_⟩
      omega
    | inr hnumber =>
      refine ⟨tochar sequence.toNat, by simp [frameBody], hseq.mpr ?_⟩
      omega

/-- No control character travels between START and END exactly when neither the length
field nor the sequence number is 95. -/
theorem no_control_iff (signedChar : Bool) (payload : List UInt8) (sequence : UInt8)
    (a : Attempt) (hpayload : payload.length ≤ maxChunk) (hsequence : sequence.toNat ≤ 127)
    (halloc : a.callocOk = true) :
    (∀ b ∈ interior (given (kSendDataPacketSmall signedChar payload sequence a).log),
        ¬ Control b) ↔
      payload.length + payload.countP shouldEscape ≠ 92 ∧ sequence.toNat ≠ 95 := by
  rw [given_packetSmall signedChar payload sequence a halloc, interior_frame]
  have h := not_congr (frameBody_control payload sequence hpayload hsequence)
  rw [not_or] at h
  simpa using h

/-- One printable byte under sequence number 5. -/
theorem no_control_iff_printable :
    (∀ b ∈ interior (given (kSendDataPacketSmall true [0x41] 5 ⟨true, 4, 4, []⟩).log),
        ¬ Control b) ↔
      [(0x41 : UInt8)].length + [(0x41 : UInt8)].countP shouldEscape ≠ 92 ∧
        (5 : UInt8).toNat ≠ 95 :=
  no_control_iff true [0x41] 5 ⟨true, 4, 4, []⟩ (by decide) (by decide) rfl

/-- The 96th packet of a transfer has DEL as its sequence byte. -/
theorem sequence_95_travels_as_del :
    ¬ ∀ (signedChar : Bool) (payload : List UInt8) (sequence : UInt8) (a : Attempt),
      payload.length ≤ maxChunk → sequence.toNat ≤ 127 → a.callocOk = true →
        ∀ b ∈ interior (given (kSendDataPacketSmall signedChar payload sequence a).log),
          ¬ Control b := by
  intro h
  have hdel := h true [0x41] 95 ⟨true, 4, 4, []⟩ (by decide) (by decide) rfl 0x7F
  rw [given_packetSmall true [0x41] 95 ⟨true, 4, 4, []⟩ rfl, interior_frame] at hdel
  exact hdel (by decide) (by decide)

end OmapBootUtils.KermitControl
