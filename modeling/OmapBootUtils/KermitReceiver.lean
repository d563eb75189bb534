import OmapBootUtils.KermitRounds
import OmapBootUtils.StopAndWait

/-!
A receiver of the ukermit byte stream, and the round trip of whole transfers.
The receiver collects the bytes between START and END, checks the length field,
the type and the checksum, un-escapes the data, and drops a frame that carries
the sequence number of the frame just before it; ETX ends the transfer.
-/
namespace OmapBootUtils.KermitReceiver

open ScriptedRun LinkCalls KermitPacket KermitTransfer KermitRounds StopAndWait

/-- Check the bytes between START and END; give the sequence number and payload. -/
def decodeFrame : List UInt8 → Option (ℤ × List UInt8)
  | lengthNormal :: sequenceNumber :: packetType :: rest =>
      if untochar lengthNormal = (rest.length : ℤ) + 2 ∧ packetType = dataType ∧
          rest.getLast? = some (checkChar
            (byteSum (lengthNormal :: sequenceNumber :: packetType :: rest.dropLast))) then
        (unescape rest.dropLast).map fun payload => (untochar sequenceNumber, payload)
      else none
  | _ => none

inductive Phase where
  | idle
  | inFrame (bytes : List UInt8)
  | ended
  deriving DecidableEq

/-- `last` is the sequence number of the frame just before. -/
structure Receiver where
  phase : Phase
  last : Option ℤ
  data : List UInt8

/-- One byte at a receiver that checks what is between START and END so. -/
def Receiver.stepBy (decode : List UInt8 → Option (ℤ × List UInt8)) (r : Receiver) (b : UInt8) :
    Option Receiver :=
  match r.phase with
  | .idle =>
      if b = startChar then some { r with phase := .inFrame [] }
      else if b = etxChar then some { r with phase := .ended }
      else none
  | .inFrame bytes =>
      if b = endChar then
        (decode bytes).map fun frame =>
          if r.last = some frame.1 then { r with phase := .idle }
          else ⟨.idle, some frame.1, r.data ++ frame.2⟩
      else some { r with phase := .inFrame (bytes ++ [b]) }
  | .ended => none

def Receiver.step : Receiver → UInt8 → Option Receiver := Receiver.stepBy decodeFrame

/-- The file a receiver has once the stream is over, if nothing was refused. -/
def receive (stream : List UInt8) : Option (List UInt8) :=
  (stream.foldlM Receiver.step ⟨.idle, none, []⟩).bind fun r =>
    if r.phase = .ended then some r.data else none

/-! ### One frame -/

/-- The bytes of a packet between START and END. -/
def frameBody (payload : List UInt8) (sequence : UInt8) : List UInt8 :=
  tochar ((escape payload).length + 3) :: tochar sequence.toNat :: dataType ::
    (escape payload ++ [checkChar (byteSum (tochar ((escape payload).length + 3) ::
      tochar sequence.toNat :: dataType :: escape payload))])

def frame (payload : List UInt8) (sequence : UInt8) : List UInt8 :=
  startChar :: (frameBody payload sequence ++ [endChar])

theorem packetSmall_append (signedChar : Bool) (payload : List UInt8) (sequence : UInt8) :
    (packetSmall signedChar payload sequence).1 ++ (packetSmall signedChar payload sequence).2 =
      frame payload sequence := by
  rw [packetSmall_eq]
  simp [frame, frameBody]

theorem escape_length_bound (payload : List UInt8) (h : payload.length ≤ maxChunk) :
    (escape payload).length ≤ 200 := by
  have hle := escape_length_le payload
  unfold maxChunk at h
  omega

theorem decodeFrame_concat (lengthNormal sequenceNumber packetType check : UInt8)
    (data : List UInt8) :
    decodeFrame (lengthNormal :: sequenceNumber :: packetType :: (data ++ [check])) =
      if untochar lengthNormal = (data.length : ℤ) + 3 ∧ packetType = dataType ∧
          check = checkChar (byteSum (lengthNormal :: sequenceNumber :: packetType :: data)) then
        (unescape data).map fun payload => (untochar sequenceNumber, payload)
      else none := by
  simp [decodeFrame, Int.add_assoc]

theorem decodeFrame_frameBody (payload : List UInt8) (sequence : UInt8)
    (hpayload : payload.length ≤ maxChunk) (hseq : sequence.toNat < 128) :
    decodeFrame (frameBody payload sequence) = some ((sequence.toNat : ℤ), payload) := by
  have hlen := escape_length_bound payload hpayload
  have hlength : untochar (tochar ((escape payload).length + 3)) =
      (escape payload).length + 3 := untochar_tochar _ (by omega) (by omega)
  have hsequence : untochar (tochar sequence.toNat) = sequence.toNat :=
    untochar_tochar _ (by omega) (by omega)
  rw [frameBody, decodeFrame_concat, if_pos ⟨hlength, rfl, rfl⟩, unescape_escape, hsequence]
  rfl

/-- Nothing inside a frame is a control character below space. -/
theorem space_le_frameBody (payload : List UInt8) (sequence : UInt8)
    (hpayload : payload.length ≤ maxChunk) (hseq : sequence.toNat < 128) :
    ∀ b ∈ frameBody payload sequence, 0x20 ≤ b := by
  have hlen := escape_length_bound payload hpayload
  intro b hb
  simp only [frameBody, List.mem_cons, List.mem_append, List.not_mem_nil, or_false] at hb
  rcases hb with rfl | rfl | rfl | hb | rfl
  · exact space_le_tochar _ (by omega) (by omega)
  · exact space_le_tochar _ (by omega) (by omega)
  · decide
  · exact space_le_escape payload b hb
  · exact UInt8.le_iff_toNat_le.mpr (checkChar_bounds _).1

theorem ne_endChar_of_space_le (b : UInt8) (h : 0x20 ≤ b) : b ≠ endChar := by
  rintro rfl
  exact absurd h (by decide)

theorem ne_etxChar_of_space_le (b : UInt8) (h : 0x20 ≤ b) : b ≠ etxChar := by
  rintro rfl
  exact absurd h (by decide)

/-! ### Receiving -/

def sequenceValue (s : UInt8) : ℤ := s.toNat

theorem sequenceValue_injective : Function.Injective sequenceValue := by
  intro a b h
  exact UInt8.toNat_inj.mp (Int.natCast_inj.mp h)

/-- A body between START and END. -/
def enclosed (body : List UInt8) : List UInt8 := startChar :: (body ++ [endChar])

section Decode
variable (decode : List UInt8 → Option (ℤ × List UInt8))

/-- The body has no END in it and is taken for this sequence number and payload. -/
structure Carries (body : List UInt8) (sequence : UInt8) (payload : List UInt8) : Prop where
  unended : ∀ b ∈ body, b ≠ endChar
  decoded : decode body = some ((sequence.toNat : ℤ), payload)

theorem foldlM_inFrame (r : Receiver) (bytes more rest : List UInt8)
    (hmore : ∀ b ∈ more, b ≠ endChar) :
    (more ++ rest).foldlM (Receiver.stepBy decode) { r with phase := .inFrame bytes } =
      rest.foldlM (Receiver.stepBy decode) { r with phase := .inFrame (bytes ++ more) } := by
  induction more generalizing bytes with
  | nil => simp
  | cons b more ih =>
    have hb : b ≠ endChar := hmore b (by simp)
    rw [List.cons_append, List.foldlM_cons]
    simp only [Receiver.stepBy, hb, if_false, Option.bind_eq_bind, Option.bind_some]
    rw [ih (bytes ++ [b]) fun c hc => hmore c (by simp [hc])]
    simp

/-- A frame is accepted whole; its payload is appended unless it is a repetition. -/
theorem foldlM_enclosed (body : List UInt8) (sequence : UInt8) (payload : List UInt8)
    (h : Carries decode body sequence payload) (last : Option ℤ) (data rest : List UInt8) :
    (enclosed body ++ rest).foldlM (Receiver.stepBy decode) ⟨.idle, last, data⟩ =
      rest.foldlM (Receiver.stepBy decode)
        (if last = some (sequence.toNat : ℤ) then ⟨.idle, last, data⟩
          else ⟨.idle, some (sequence.toNat : ℤ), data ++ payload⟩) := by
  have hstart : Receiver.stepBy decode ⟨.idle, last, data⟩ startChar =
      some ⟨.inFrame [], last, data⟩ := by simp [Receiver.stepBy]
  rw [enclosed, List.cons_append, List.foldlM_cons, hstart, Option.bind_eq_bind, Option.bind_some,
    List.append_assoc, foldlM_inFrame decode ⟨.idle, last, data⟩ [] _ _ h.unended,
    List.nil_append, List.singleton_append, List.foldlM_cons]
  simp only [Receiver.stepBy, if_true, h.decoded, Option.map_some, Option.bind_eq_bind,
    Option.bind_some]

/-- The receiver keeps what a stop-and-wait receiver keeps of the frames. -/
theorem foldlM_bodies (body : List UInt8 → UInt8 → List UInt8) (sent : List (UInt8 × List UInt8))
    (hsent : ∀ p ∈ sent, Carries decode (body p.2 p.1) p.1 p.2)
    (last : Option UInt8) (data rest : List UInt8) :
    ∃ last', (sent.flatMap (fun p => enclosed (body p.2 p.1)) ++ rest).foldlM
        (Receiver.stepBy decode) ⟨.idle, last.map sequenceValue, data⟩ =
      rest.foldlM (Receiver.stepBy decode)
        ⟨.idle, last', data ++ (keep last sent).flatten⟩ := by
  induction sent generalizing last data with
  | nil => exact ⟨last.map sequenceValue, by simp [keep]⟩
  | cons p sent ih =>
    obtain ⟨s, payload⟩ := p
    have hfirst := hsent (s, payload) (by simp)
    have hrest : ∀ p ∈ sent, Carries decode (body p.2 p.1) p.1 p.2 :=
      fun p hp => hsent p (by simp [hp])
    have hlast : last.map sequenceValue = some (s.toNat : ℤ) ↔ last = some s := by
      rw [show some (s.toNat : ℤ) = (some s).map sequenceValue from rfl]
      exact (Option.map_injective sequenceValue_injective).eq_iff
    rw [List.flatMap_cons, List.append_assoc, foldlM_enclosed decode _ s payload hfirst]
    by_cases hl : last = some s
    · rw [if_pos (hlast.mpr hl)]
      obtain ⟨last', h⟩ := ih hrest last data
      refine ⟨last', ?_⟩
      rw [h, keep, if_pos hl, hl]
    · rw [if_neg fun h => hl (hlast.mp h)]
      obtain ⟨last', h⟩ := ih hrest (some s) (data ++ payload)
      refine ⟨last', ?_⟩
      rw [show some (s.toNat : ℤ) = (some s).map sequenceValue from rfl, h, keep, if_neg hl]
      simp

end Decode

theorem foldlM_frames (sent : List (UInt8 × List UInt8))
    (hsent : ∀ p ∈ sent, p.2.length ≤ maxChunk ∧ p.1.toNat < 128)
    (last : Option UInt8) (data rest : List UInt8) :
    ∃ last', (sent.flatMap (fun p => frame p.2 p.1) ++ rest).foldlM Receiver.step
        ⟨.idle, last.map sequenceValue, data⟩ =
      rest.foldlM Receiver.step ⟨.idle, last', data ++ (keep last sent).flatten⟩ := by
  apply foldlM_bodies decodeFrame frameBody sent
  intro p hp
  obtain ⟨hpayload, hseq⟩ := hsent p hp
  exact ⟨fun b hb => ne_endChar_of_space_le b (space_le_frameBody p.2 p.1 hpayload hseq b hb),
    decodeFrame_frameBody p.2 p.1 hpayload hseq⟩

/-! ### The stream of a transfer -/

/-- What a round sends: its chunk, once more for each rejected attempt. -/
def Round.sent (r : Round) : Sent (List UInt8) := ⟨r.chunk, r.failed.length⟩

theorem given_exchangeCalls (signedChar : Bool) (chunk : List UInt8) (sequence : UInt8)
    (attempts : List Attempt) :
    given (attempts.flatMap (exchangeCalls signedChar chunk sequence)) =
      (List.replicate attempts.length (sequence, chunk)).flatMap fun p => frame p.2 p.1 := by
  induction attempts with
  | nil => rfl
  | cons a attempts ih =>
    rw [List.flatMap_cons, given_append, ih, List.length_cons, List.replicate_succ,
      List.flatMap_cons, ← packetSmall_append signedChar]
    simp [given, exchangeCalls, LinkCall.given]

theorem given_roundCalls (signedChar : Bool) (k : ℕ) (rounds : List Round) :
    given (roundCalls signedChar k rounds) =
      (frames sequenceAt k (rounds.map Round.sent)).flatMap fun p => frame p.2 p.1 := by
  induction rounds generalizing k with
  | nil => rfl
  | cons r rest ih =>
    have hread : given (r.calls signedChar k) =
        given ((r.failed ++ [r.acked]).flatMap (exchangeCalls signedChar r.chunk
          (sequenceAt k))) := rfl
    rw [roundCalls, given_append, ih, hread, given_exchangeCalls, List.map_cons, frames,
      List.flatMap_append]
    simp [Round.sent]

theorem goodRounds_chunk_le {k : ℕ} {rounds : List Round} (h : GoodRounds k rounds) :
    ∀ r ∈ rounds, r.chunk.length ≤ maxChunk := by
  induction rounds generalizing k with
  | nil => simp
  | cons r rest ih =>
    rw [List.forall_mem_cons]
    exact ⟨h.1.chunk_le, ih h.2⟩

/-- Frames under running sequence numbers, with items no longer than a chunk. -/
theorem mem_frames_sequenceAt {limit k : ℕ} {sent : List (Sent (List UInt8))}
    (hsent : ∀ s ∈ sent, s.item.length ≤ limit) (p : UInt8 × List UInt8)
    (hp : p ∈ frames sequenceAt k sent) : p.2.length ≤ limit ∧ p.1.toNat < 128 := by
  obtain ⟨⟨j, hlabel⟩, s, hs, hitem⟩ := mem_frames sequenceAt sent k p hp
  rw [hlabel, hitem, sequenceAt_toNat]
  exact ⟨hsent s hs, Nat.mod_lt j (by omega)⟩

theorem sequenceAt_ne_succ (k : ℕ) : sequenceAt k ≠ sequenceAt (k + 1) := by
  intro h
  apply mod_succ_ne 128 k (by omega)
  rw [← sequenceAt_toNat, ← sequenceAt_toNat, h]

/-- START, bytes that are no control characters, END. -/
def IsFrame (bytes : List UInt8) : Prop :=
  ∃ body, bytes = startChar :: (body ++ [endChar]) ∧ ∀ b ∈ body, 0x20 ≤ b

theorem isFrame_frame (payload : List UInt8) (sequence : UInt8)
    (hpayload : payload.length ≤ maxChunk) (hseq : sequence.toNat < 128) :
    IsFrame (frame payload sequence) :=
  ⟨frameBody payload sequence, rfl, space_le_frameBody payload sequence hpayload hseq⟩

theorem IsFrame.etxChar_not_mem {bytes : List UInt8} (h : IsFrame bytes) :
    etxChar ∉ bytes := by
  obtain ⟨body, rfl, hbody⟩ := h
  intro hmem
  simp only [List.mem_cons, List.mem_append, List.not_mem_nil, or_false] at hmem
  rcases hmem with h | h | h
  · exact absurd h (by decide)
  · exact ne_etxChar_of_space_le etxChar (hbody etxChar h) rfl
  · exact absurd h (by decide)

/-- Whole transfers: the stream is frames and one ETX, and the receiver has the
file, for any replies, any number of repetitions and any number of wraps. -/
theorem transfer_round_trip (signedChar : Bool) (file : List UInt8) (env : KermitEnv)
    (hsize : env.fSize = some file.length)
    (hret : (kSendData signedChar file env).status = .done 0) :
    (∃ sent : List (List UInt8), (∀ bytes ∈ sent, IsFrame bytes) ∧
      etxChar ∉ sent.flatten ∧
      given (kSendData signedChar file env).log = sent.flatten ++ [etxChar]) ∧
    receive (given (kSendData signedChar file env).log) = some file := by
  have hopen : env.fOpen = fileOk := by
    by_contra hopen
    rw [kSendData_not_open signedChar file env file.length hsize hopen] at hret
    cases hret
  obtain ⟨rounds, hgood, hpre, hlength, hlog, _⟩ :=
    (kSendData_cases signedChar file env file.length hsize hopen).resolve_right
      fun ⟨_, _, _, _, _, _, _, hne⟩ => hne hret
  have hsent : ∀ s ∈ rounds.map Round.sent, s.item.length ≤ maxChunk := by
    rw [List.forall_mem_map]
    exact goodRounds_chunk_le hgood
  have hmem := mem_frames_sequenceAt (k := 0) hsent
  have hstream : given (kSendData signedChar file env).log =
      (frames sequenceAt 0 (rounds.map Round.sent)).flatMap (fun p => frame p.2 p.1) ++
        [etxChar] := by
    rw [hlog, given_append, given_append, given_roundCalls]
    simp [given, LinkCall.given]
  have hframes : ∀ bytes ∈ (frames sequenceAt 0 (rounds.map Round.sent)).map
      (fun p => frame p.2 p.1), IsFrame bytes := by
    intro bytes hbytes
    obtain ⟨p, hp, rfl⟩ := List.mem_map.mp hbytes
    exact isFrame_frame p.2 p.1 (hmem p hp).1 (hmem p hp).2
  have hfile : chunksOf rounds = file :=
    hpre.eq_of_length hlength
  constructor
  · refine ⟨_, hframes, ?_, ?_⟩
    · intro h
      obtain ⟨bytes, hbytes, he⟩ := List.mem_flatten.mp h
      exact (hframes bytes hbytes).etxChar_not_mem he
    · rw [hstream, List.flatMap_def]
  · obtain ⟨last, hlast⟩ := foldlM_frames _ hmem none [] [etxChar]
    have hkeep : keep none (frames sequenceAt 0 (rounds.map Round.sent)) =
        rounds.map Round.chunk := by
      rw [keep_frames sequenceAt sequenceAt_ne_succ _ 0 none (by simp), List.map_map]
      rfl
    rw [receive, hstream]
    simp only [Option.map_none] at hlast
    rw [hlast, hkeep, ← List.flatMap_def]
    simp [Receiver.step, Receiver.stepBy, etxChar, startChar, ← hfile, chunksOf]

/-- Three bytes that need escaping, sent twice because the first reply is cut. -/
def resentEnv : KermitEnv where
  fSize := some 3
  fOpen := 0
  reads := [some 3]
  attempts := [⟨true, 4, 9, [0x01, 0x23, 0x20]⟩,
    ⟨true, 4, 9, [0x01, 0x23, 0x20, 0x59, 0x3E, 0x0D]⟩]
  etxRet := 1
  fClose := 0

theorem transfer_round_trip_resent :
    (∃ sent : List (List UInt8), (∀ bytes ∈ sent, IsFrame bytes) ∧
      etxChar ∉ sent.flatten ∧
      given (kSendData true [0x0D, 0x23, 0xFF] resentEnv).log = sent.flatten ++ [etxChar]) ∧
    receive (given (kSendData true [0x0D, 0x23, 0xFF] resentEnv).log) =
      some [0x0D, 0x23, 0xFF] :=
  transfer_round_trip true [0x0D, 0x23, 0xFF] resentEnv rfl (by decide)

end OmapBootUtils.KermitReceiver
