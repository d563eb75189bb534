import OmapBootUtils.ByteMemory
import Mathlib.Algebra.BigOperators.Group.List.Basic
import Mathlib.Tactic.Ring

/-!
The small Kermit data packet of ukermit: escaping, the folded checksum and the
two buffers handed to the port. Plain char is a parameter of the host; the
bytes of the packet turn out not to depend on its signedness.
-/
namespace OmapBootUtils.KermitPacket

def startChar : UInt8 := 0x01
def etxChar : UInt8 := 0x03
def endChar : UInt8 := 0x0D
def space : ℤ := 0x20
def kEscapeChar : UInt8 := 0x23
def dataType : UInt8 := 0x44
def ackType : UInt8 := 0x59
def nackType : UInt8 := 0x4E

/-- `use page sized chunks`, the limit of the build without large packets. -/
def maxChunk : ℕ := 100

def tochar (x : ℤ) : UInt8 := UInt8.ofInt (x + space)

def untochar (x : UInt8) : ℤ := (x.toNat - space) % 256

def escapeIt (ch : UInt8) : UInt8 := ch ^^^ 0x40

/-- The value of a plain char in int arithmetic. -/
def charValue (signedChar : Bool) (b : UInt8) : ℤ :=
  if signedChar = true ∧ 128 ≤ b.toNat then (b.toNat : ℤ) - 256 else b.toNat

/-- Converts an escaped character back, as loadb.c in U-Boot does. -/
def ktrans (c : UInt8) : UInt8 :=
  if c &&& 0x60 = 0x40 then c &&& ~~~0x40
  else if c &&& 0x7f = 0x3f then c ||| 0x40
  else c

def shouldEscape (out : UInt8) : Bool :=
  let a := out &&& 0x7F
  (a < 0x20 || a == 0x7F) || a == kEscapeChar

def kEscape (out : UInt8) : UInt8 :=
  let a := out &&& 0x7F
  if a ≠ kEscapeChar then escapeIt out else out

/-- tochar((sum + ((sum >> 6) & 0x03)) & 0x3f), with an arithmetic shift. -/
def checkChar (sum : ℤ) : UInt8 := tochar ((sum + (sum >>> (6 : ℕ)) % 4) % 64)

/-- The loop over the payload: the bytes stored so far and their char sum. -/
def escapeLoop (signedChar : Bool) : List UInt8 → List UInt8 × ℤ → List UInt8 × ℤ
  | [], acc => acc
  | b :: rest, (out, sum) =>
      if shouldEscape b then
        escapeLoop signedChar rest
          (out ++ [kEscapeChar, kEscape b],
            sum + charValue signedChar kEscapeChar + charValue signedChar (kEscape b))
      else
        escapeLoop signedChar rest (out ++ [b], sum + charValue signedChar b)

/-- The header structure and the buffer that the packet function fills. -/
def packetSmall (signedChar : Bool) (buffer : List UInt8) (sequence : UInt8) :
    List UInt8 × List UInt8 :=
  let (out, dataSum) := escapeLoop signedChar buffer ([], 0)
  let sequenceNumber := tochar sequence.toNat
  let lengthNormal := tochar (out.length + 3)
  let sum := dataSum + (lengthNormal.toNat + sequenceNumber.toNat + dataType.toNat)
  ([startChar, lengthNormal, sequenceNumber, dataType], out ++ [checkChar sum, endChar])

/-! ### What the loop computes -/

def escapeByte (b : UInt8) : List UInt8 :=
  if shouldEscape b then [kEscapeChar, kEscape b] else [b]

def escape (payload : List UInt8) : List UInt8 := payload.flatMap escapeByte

def byteSum (bytes : List UInt8) : ℕ := (bytes.map UInt8.toNat).sum

def charSum (signedChar : Bool) (bytes : List UInt8) : ℤ :=
  (bytes.map (charValue signedChar)).sum

theorem escapeLoop_eq (signedChar : Bool) (payload out : List UInt8) (sum : ℤ) :
    escapeLoop signedChar payload (out, sum) =
      (out ++ escape payload, sum + charSum signedChar (escape payload)) := by
  induction payload generalizing out sum with
  | nil => simp [escapeLoop, escape, charSum]
  | cons b rest ih =>
    unfold escapeLoop
    by_cases hb : shouldEscape b
    · rw [if_pos hb, ih]
      simp [escape, escapeByte, hb, charSum, Int.add_assoc]
    · rw [if_neg hb, ih]
      simp [escape, escapeByte, hb, charSum, Int.add_assoc]

theorem escape_length_le (payload : List UInt8) :
    (escape payload).length ≤ 2 * payload.length := by
  induction payload with
  | nil => rfl
  | cons b rest ih =>
    have hb : (escapeByte b).length ≤ 2 := by
      unfold escapeByte
      split <;> simp
    simp only [escape, List.flatMap_cons, List.length_append, List.length_cons] at ih ⊢
    omega

/-! ### Bytes -/

theorem byte_forall (P : UInt8 → Prop) (h : ∀ n, n < 256 → P (UInt8.ofNat n)) (b : UInt8) :
    P b := by
  have hb := h b.toNat b.toNat_lt
  rwa [UInt8.ofNat_toNat] at hb

theorem ktrans_kEscape (b : UInt8) (h : shouldEscape b) : ktrans (kEscape b) = b :=
  byte_forall (fun b => shouldEscape b → ktrans (kEscape b) = b) (by decide +kernel) b h

theorem space_le_kEscape (b : UInt8) (h : shouldEscape b) : 0x20 ≤ kEscape b :=
  byte_forall (fun b => shouldEscape b → 0x20 ≤ kEscape b) (by decide +kernel) b h

theorem space_le_of_not_shouldEscape (b : UInt8) (h : ¬ shouldEscape b) : 0x20 ≤ b :=
  byte_forall (fun b => ¬ shouldEscape b → 0x20 ≤ b) (by decide +kernel) b h

theorem ne_kEscapeChar_of_not_shouldEscape (b : UInt8) (h : ¬ shouldEscape b) :
    b ≠ kEscapeChar := by
  rintro rfl
  exact h (by decide)

theorem space_le_escape (payload : List UInt8) : ∀ b ∈ escape payload, 0x20 ≤ b := by
  intro b hb
  obtain ⟨a, _, hba⟩ := List.mem_flatMap.mp hb
  unfold escapeByte at hba
  split at hba
  · rename_i ha
    rcases List.mem_cons.mp hba with rfl | hba
    · decide
    · rw [List.mem_singleton.mp hba]
      exact space_le_kEscape a ha
  · rename_i ha
    rw [List.mem_singleton.mp hba]
    exact space_le_of_not_shouldEscape a ha

/-! ### Un-escaping -/

/-- A receiver's inverse: `#` announces a byte to be converted by ktrans. -/
def unescape : List UInt8 → Option (List UInt8)
  | [] => some []
  | b :: rest =>
      if b = kEscapeChar then
        match rest with
        | [] => none
        | c :: rest => (unescape rest).map (ktrans c :: ·)
      else (unescape rest).map (b :: ·)

theorem unescape_escaped (c : UInt8) (rest : List UInt8) :
    unescape (kEscapeChar :: c :: rest) = (unescape rest).map (ktrans c :: ·) := by
  simp [unescape]

theorem unescape_plain (b : UInt8) (rest : List UInt8) (h : b ≠ kEscapeChar) :
    unescape (b :: rest) = (unescape rest).map (b :: ·) := by
  rw [unescape.eq_def]
  simp [h]

/-- Un-escaping the data field gives back the payload. -/
theorem unescape_escape (payload : List UInt8) : unescape (escape payload) = some payload := by
  induction payload with
  | nil => rfl
  | cons b rest ih =>
    simp only [escape, List.flatMap_cons] at ih ⊢
    by_cases hb : shouldEscape b
    · have hbyte : escapeByte b = [kEscapeChar, kEscape b] := if_pos hb
      rw [hbyte, List.cons_append, List.cons_append, List.nil_append,
        unescape_escaped, ih, ktrans_kEscape b hb]
      rfl
    · have hbyte : escapeByte b = [b] := if_neg hb
      rw [hbyte, List.cons_append, List.nil_append,
        unescape_plain b _ (ne_kEscapeChar_of_not_shouldEscape b hb), ih]
      rfl

/-! ### Characters and the checksum -/

theorem toNat_tochar (x : ℤ) (h0 : 0 ≤ x) (h1 : x < 224) : ((tochar x).toNat : ℤ) = x + 32 := by
  unfold tochar space UInt8.ofInt
  rw [UInt8.toNat_ofNat']
  omega

theorem untochar_tochar (x : ℤ) (h0 : 0 ≤ x) (h1 : x < 224) : untochar (tochar x) = x := by
  unfold untochar
  rw [toNat_tochar x h0 h1]
  unfold space
  omega

theorem space_le_tochar (x : ℤ) (h0 : 0 ≤ x) (h1 : x < 224) : 0x20 ≤ tochar x := by
  have h := toNat_tochar x h0 h1
  rw [UInt8.le_iff_toNat_le]
  change 32 ≤ (tochar x).toNat
  omega

theorem charValue_emod (signedChar : Bool) (b : UInt8) :
    charValue signedChar b % 256 = (b.toNat : ℤ) := by
  have hb : b.toNat < 256 := b.toNat_lt
  unfold charValue
  split <;> omega

theorem charSum_emod (signedChar : Bool) (bytes : List UInt8) :
    charSum signedChar bytes % 256 = (byteSum bytes : ℤ) % 256 := by
  induction bytes with
  | nil => rfl
  | cons b rest ih =>
    have hb := charValue_emod signedChar b
    simp only [charSum, byteSum, List.map_cons, List.sum_cons, Nat.cast_add] at ih ⊢
    omega

/-- The check folds bits 0 to 7 of the sum only. -/
theorem checkChar_congr (a b : ℤ) (h : a % 256 = b % 256) : checkChar a = checkChar b := by
  have hfold : ∀ s : ℤ, (s >>> (6 : ℕ)) % 4 = s % 256 / 64 := by
    intro s
    rw [Int.shiftRight_eq_div_pow]
    omega
  unfold checkChar
  rw [hfold a, hfold b, h]
  congr 1
  omega

theorem checkChar_bounds (sum : ℤ) :
    0x20 ≤ (checkChar sum).toNat ∧ (checkChar sum).toNat < 0x60 := by
  have h := toNat_tochar ((sum + (sum >>> (6 : ℕ)) % 4) % 64) (by omega) (by omega)
  unfold checkChar
  omega

/-- The two buffers in closed form; the checksum is that of the unsigned sum of
all bytes from length through data, whatever the signedness of plain char. -/
theorem packetSmall_eq (signedChar : Bool) (buffer : List UInt8) (sequence : UInt8) :
    packetSmall signedChar buffer sequence =
      ([startChar, tochar ((escape buffer).length + 3), tochar sequence.toNat, dataType],
        escape buffer ++
          [checkChar (byteSum (tochar ((escape buffer).length + 3) :: tochar sequence.toNat ::
            dataType :: escape buffer)), endChar]) := by
  unfold packetSmall
  rw [escapeLoop_eq]
  simp only [List.nil_append, Int.zero_add, Prod.mk.injEq, List.append_cancel_left_eq,
    List.cons.injEq, and_true, true_and]
  apply checkChar_congr
  have h := charSum_emod signedChar (escape buffer)
  simp only [byteSum, List.map_cons, List.sum_cons, Nat.cast_add] at h ⊢
  omega

end OmapBootUtils.KermitPacket
