import OmapBootUtils.KermitLarge

/-!
The ukermit sender of the build with large packets. A chunk goes out in a small
packet below 95 bytes and in a large one from there on. A target that tells the two
apart by the length field has, at every point of every run, a part of the file from
its start on, and the whole of it once the sender returns 0.
-/
namespace OmapBootUtils.KermitLargeTransfer

open ScriptedRun LinkCalls KermitPacket KermitTransfer KermitRounds StopAndWait KermitReceiver
  KermitFrame KermitLarge

/-! ### The sender -/

/-- The packet function that k_send_data chooses for a chunk. -/
def kSendDataPacket (signedChar : Bool) (buffer : List UInt8) (sequence : UInt8)
    (a : Attempt) : Link ℤ :=
  if buffer.length < 95 then kSendDataPacketSmall signedChar buffer sequence a
  else kSendDataPacketLarge signedChar buffer sequence a

def largeBuild (signedChar : Bool) : Build where
  signedChar := signedChar
  maxChunk := maxChunkLarge
  packet := kSendDataPacket signedChar

def kSendDataLarge (signedChar : Bool) : List UInt8 → KermitEnv → Link ℤ :=
  (largeBuild signedChar).kSendData

/-! ### The target -/

/-- Check the bytes of a large packet behind its type; give the payload. -/
def decodeTail (lengthNormal sequenceNumber packetType : UInt8) :
    List UInt8 → Option (List UInt8)
  | lengthHi :: lengthLo :: headerChecksum :: rest =>
      let header := [lengthNormal, sequenceNumber, packetType, lengthHi, lengthLo]
      if packetType = dataType ∧ headerChecksum = checkChar (byteSum header) ∧
          untochar lengthHi * 95 + untochar lengthLo = (rest.length : ℤ) ∧
          rest.getLast? = some (checkChar (byteSum (header ++ headerChecksum :: rest.dropLast))) then
        unescape rest.dropLast
      else none
  | _ => none

/-- Check the bytes between START and END; give the sequence number and payload. A length
field of 0 is the mark of a large packet. -/
def decodePacket : List UInt8 → Option (ℤ × List UInt8)
  | lengthNormal :: sequenceNumber :: packetType :: rest =>
      if untochar lengthNormal = 0 then
        (decodeTail lengthNormal sequenceNumber packetType rest).map fun payload =>
          (untochar sequenceNumber, payload)
      else decodeFrame (lengthNormal :: sequenceNumber :: packetType :: rest)
  | _ => none

/-- One byte at the target. -/
def targetStep : Receiver → UInt8 → Option Receiver := Receiver.stepBy decodePacket

/-- The target after a stream, if it has refused nothing. -/
def target (stream : List UInt8) : Option Receiver :=
  stream.foldlM targetStep ⟨.idle, none, []⟩

/-! ### One packet -/

/-- The bytes of a packet between START and END. -/
def packetBody (payload : List UInt8) (sequence : UInt8) : List UInt8 :=
  if payload.length < 95 then frameBody payload sequence
  else (largeParts payload sequence).body

def packet (payload : List UInt8) (sequence : UInt8) : List UInt8 :=
  enclosed (packetBody payload sequence)

theorem escape_short (payload : List UInt8) (hpayload : payload.length ≤ maxChunkLarge) :
    (escape payload).length + 1 < 95 * 95 := by
  have hle := escape_length_le payload
  unfold maxChunkLarge at hpayload
  omega

/-- A packet that goes out, goes out whole. -/
theorem kSendDataPacket_eq (signedChar : Bool) (payload : List UInt8) (sequence : UInt8)
    (a : Attempt) (hpayload : payload.length ≤ maxChunkLarge) (ha : a.callocOk = true) :
    ∃ calls, kSendDataPacket signedChar payload sequence a = Run.after calls (pure 0) ∧
      given calls = packet payload sequence := by
  by_cases hsmall : payload.length < 95
  · refine ⟨[.sWrite (packetSmall signedChar payload sequence).1 a.headerRet,
      .sWrite (packetSmall signedChar payload sequence).2 a.bodyRet], ?_, ?_⟩
    · simp [kSendDataPacket, hsmall, kSendDataPacketSmall, ha, s1Sendpacket]
    · have happend := packetSmall_append signedChar payload sequence
      simpa [given, LinkCall.given, packet, enclosed, packetBody, hsmall, frame] using happend
  · refine ⟨[.sWrite (packetLarge signedChar payload sequence).1 a.headerRet,
      .sWrite (packetLarge signedChar payload sequence).2 a.bodyRet], ?_, ?_⟩
    · simp [kSendDataPacket, hsmall, kSendDataPacketLarge, ha, s1Sendpacket]
    · have happend := packetLarge_eq signedChar payload sequence (escape_short payload hpayload)
      simpa [given, LinkCall.given, packet, enclosed, packetBody, hsmall] using happend

/-- The length field of a small packet is no mark of a large one. -/
theorem decodePacket_small (payload : List UInt8) (sequence : UInt8)
    (hpayload : payload.length < 95) (hseq : sequence.toNat < 128) :
    decodePacket (frameBody payload sequence) = some ((sequence.toNat : ℤ), payload) := by
  have hchunk : payload.length ≤ maxChunk := by
    unfold maxChunk
    omega
  have hlen := escape_length_bound payload hchunk
  have hlength : untochar (tochar ((escape payload).length + 3)) ≠ 0 := by
    rw [untochar_tochar _ (by omega) (by omega)]
    omega
  have hdecode := decodeFrame_frameBody payload sequence hchunk hseq
  rw [frameBody] at hdecode ⊢
  rw [decodePacket, if_neg hlength, hdecode]

theorem decodePacket_large (payload : List UInt8) (sequence : UInt8)
    (hpayload : payload.length ≤ maxChunkLarge) (hseq : sequence.toNat < 128) :
    decodePacket (largeParts payload sequence).body = some ((sequence.toNat : ℤ), payload) := by
  obtain ⟨hhi, hlo⟩ := lengthDigits_decode _ (escape_short payload hpayload)
  have hmark : untochar (tochar 0) = 0 := untochar_tochar 0 (by omega) (by omega)
  have hsequence : untochar (tochar sequence.toNat) = sequence.toNat :=
    untochar_tochar _ (by omega) (by omega)
  simp only [LargeParts.body, LargeParts.summed, LargeParts.header, largeParts, List.cons_append,
    List.nil_append, decodePacket, hmark, if_true, decodeTail, hhi, hlo, hsequence]
  rw [if_pos, List.dropLast_concat, unescape_escape, Option.map_some]
  refine ⟨trivial, trivial, ?_, ?_⟩
  · rw [List.length_append, List.length_singleton]
    omega
  · rw [List.getLast?_concat, List.dropLast_concat]

theorem decodePacket_body (payload : List UInt8) (sequence : UInt8)
    (hpayload : payload.length ≤ maxChunkLarge) (hseq : sequence.toNat < 128) :
    decodePacket (packetBody payload sequence) = some ((sequence.toNat : ℤ), payload) := by
  unfold packetBody
  split
  case isTrue hsmall => exact decodePacket_small payload sequence hsmall hseq
  case isFalse => exact decodePacket_large payload sequence hpayload hseq

/-- No byte of a packet is a control character. -/
theorem space_le_packetBody (payload : List UInt8) (sequence : UInt8)
    (hpayload : payload.length ≤ maxChunkLarge) (hseq : sequence.toNat < 128) :
    ∀ b ∈ packetBody payload sequence, 0x20 ≤ b := by
  have hcheck : ∀ sum, 0x20 ≤ checkChar sum := fun sum =>
    UInt8.le_iff_toNat_le.mpr (checkChar_bounds sum).1
  have hlen := escape_short payload hpayload
  unfold packetBody
  split
  case isTrue hsmall =>
    have hchunk : payload.length ≤ maxChunk := by
      unfold maxChunk
      omega
    exact space_le_frameBody payload sequence hchunk hseq
  case isFalse =>
    intro b hb
    simp only [LargeParts.body, LargeParts.summed, LargeParts.header, largeParts, lengthDigits,
      List.mem_append, List.mem_cons, List.not_mem_nil, or_false] at hb
    obtain ((rfl | rfl | rfl | rfl | rfl) | rfl | hb) | rfl := hb
    · decide
    · exact space_le_tochar _ (by omega) (by omega)
    · decide
    · exact space_le_tochar _ (by omega) (by omega)
    · exact space_le_tochar _ (by omega) (by omega)
    · exact hcheck _
    · exact space_le_escape payload b hb
    · exact hcheck _

/-- The target keeps what a stop-and-wait receiver keeps of the packets. -/
theorem foldlM_packets (sent : List (UInt8 × List UInt8))
    (hsent : ∀ p ∈ sent, p.2.length ≤ maxChunkLarge ∧ p.1.toNat < 128)
    (last : Option UInt8) (data rest : List UInt8) :
    ∃ last', (sent.flatMap (fun p => packet p.2 p.1) ++ rest).foldlM targetStep
        ⟨.idle, last.map sequenceValue, data⟩ =
      rest.foldlM targetStep ⟨.idle, last', data ++ (keep last sent).flatten⟩ := by
  apply foldlM_bodies decodePacket packetBody sent
  intro p hp
  obtain ⟨hpayload, hseq⟩ := hsent p hp
  exact ⟨fun b hb => ne_endChar_of_space_le b (space_le_packetBody p.2 p.1 hpayload hseq b hb),
    decodePacket_body p.2 p.1 hpayload hseq⟩

/-! ### What a run sends -/

section Run
variable (signedChar : Bool)

theorem retryLoopLarge_calloc_failed (buffer : List UInt8) (sequence : UInt8) (retry : ℕ)
    (a : Attempt) (attempts : List Attempt) (ha : a.callocOk = false) :
    (largeBuild signedChar).retryLoop buffer sequence retry (a :: attempts) =
      pure (.returned (-1)) := by
  have hpacket : kSendDataPacket signedChar buffer sequence a = pure (-1) := by
    unfold kSendDataPacket
    split <;> simp [kSendDataPacketSmall, kSendDataPacketLarge, ha]
  exact Build.retryLoop_returned _ buffer sequence retry a attempts hpacket

/-- One attempt: the packet goes out, the reply is read and classified. -/
theorem retryLoopLarge_cons (buffer : List UInt8) (sequence : UInt8) (retry : ℕ) (a : Attempt)
    (attempts : List Attempt) (hbuffer : buffer.length ≤ maxChunkLarge) (ha : a.callocOk = true) :
    ∃ (calls : List LinkCall) (ret : ℤ), given calls = packet buffer sequence ∧
      (largeBuild signedChar).retryLoop buffer sequence retry (a :: attempts) =
        Run.after calls
          (if ret < 0 then pure (.returned ret)
          else if ret = ackType.toNat then pure (.left retry attempts)
          else if retry + 1 < retryMax then
            (largeBuild signedChar).retryLoop buffer sequence (retry + 1) attempts
          else pure (.left (retry + 1) attempts)) := by
  obtain ⟨calls, hcalls, hgiven⟩ := kSendDataPacket_eq signedChar buffer sequence a hbuffer ha
  refine ⟨calls ++ [.sRead kermitAckSize (a.reply.take kermitAckSize)],
    ackResult signedChar sequence.toNat (KermitAck.ofBytes a.reply), ?_, ?_⟩
  · rw [given_append, hgiven]
    simp [given, LinkCall.given]
  · exact Build.retryLoop_attempt _ buffer sequence retry a attempts calls hcalls _ rfl

/-- The retry loop sends its packet some number of times, and it is not left at its end before
the first of them. -/
theorem retryLoopLarge_sends (buffer : List UInt8) (sequence : UInt8)
    (hbuffer : buffer.length ≤ maxChunkLarge) (attempts : List Attempt) (retry : ℕ) :
    ∃ n, given ((largeBuild signedChar).retryLoop buffer sequence retry attempts).log =
        (List.replicate n (packet buffer sequence)).flatten ∧
      ∀ exit,
        ((largeBuild signedChar).retryLoop buffer sequence retry attempts).status = .done exit →
        (∃ ret, ret < 0 ∧ exit = .returned ret) ∨
          1 ≤ n ∧ ∃ retry' rest, exit = .left retry' rest := by
  induction attempts generalizing retry with
  | nil => exact ⟨0, rfl, fun exit h => by cases h⟩
  | cons a attempts ih =>
    cases ha : a.callocOk with
    | false =>
      rw [retryLoopLarge_calloc_failed signedChar buffer sequence retry a attempts ha]
      refine ⟨0, rfl, fun exit h => Or.inl ⟨-1, by omega, ?_⟩⟩
      simpa using h.symm
    | true =>
      obtain ⟨calls, ret, hgiven, hrun⟩ :=
        retryLoopLarge_cons signedChar buffer sequence retry a attempts hbuffer ha
      rw [hrun, Run.after_log, Run.after_status, given_append, hgiven]
      by_cases hneg : ret < 0
      · rw [if_pos hneg]
        refine ⟨1, by simp [given], fun exit h => Or.inl ⟨ret, hneg, ?_⟩⟩
        simpa using h.symm
      · rw [if_neg hneg]
        by_cases hack : ret = ackType.toNat
        · rw [if_pos hack]
          refine ⟨1, by simp [given], fun exit h => Or.inr ⟨le_rfl, retry, attempts, ?_⟩⟩
          simpa using h.symm
        · rw [if_neg hack]
          by_cases hmore : retry + 1 < retryMax
          · rw [if_pos hmore]
            obtain ⟨n, hn, hexit⟩ := ih (retry + 1)
            refine ⟨n + 1, by rw [hn, List.replicate_succ, List.flatten_cons], ?_⟩
            intro exit h
            rcases hexit exit h with hreturned | ⟨-, hleft⟩
            · exact Or.inl hreturned
            · exact Or.inr ⟨by omega, hleft⟩
          · rw [if_neg hmore]
            refine ⟨1, by simp [given], fun exit h => Or.inr ⟨le_rfl, retry + 1, attempts, ?_⟩⟩
            simpa using h.symm

/-- The stream of a loop over the file: chunks under running numbers, each sent at least once;
they are a beginning of what is left of the file, and all of it when the loop ends. -/
structure Streams (k size : ℕ) (rest : List UInt8) (x : Link (Option ℤ))
    (sent : List (Sent (List UInt8))) : Prop where
  stream : given x.log = (frames sequenceAt k sent).flatMap fun p => packet p.2 p.1
  chunk_le : ∀ s ∈ sent, s.item.length ≤ maxChunkLarge
  isPrefix : (sent.map Sent.item).flatten <+: rest
  ends : ∀ exit, x.status = .done exit → (∃ ret, ret < 0 ∧ exit = some ret) ∨
    exit = none ∧ (sent.map Sent.item).flatten.length = size

/-- A loop that is blocked or left with nothing sent. -/
theorem Streams.stopped (k size : ℕ) (rest : List UInt8) (x : Link (Option ℤ))
    (hlog : given x.log = [])
    (hstatus : ∀ exit, x.status = .done exit → ∃ ret, ret < 0 ∧ exit = some ret) :
    Streams k size rest x [] where
  stream := hlog
  chunk_le := by simp
  isPrefix := List.nil_prefix
  ends exit h := Or.inl (hstatus exit h)

/-- A chunk in front of what a loop sends. -/
theorem Streams.cons {k size : ℕ} {rest chunk : List UInt8} {x : Link (Option ℤ)}
    {sent : List (Sent (List UInt8))} (calls : List LinkCall) (n : ℕ)
    (hchunk : chunk <+: rest) (hsize : chunk.length ≤ size)
    (hle : chunk.length ≤ maxChunkLarge)
    (hcalls : given calls = (List.replicate (n + 1) (packet chunk (sequenceAt k))).flatten)
    (h : Streams (k + 1) (size - chunk.length) (rest.drop chunk.length) x sent) :
    Streams k size rest (Run.after calls x) (⟨chunk, n⟩ :: sent) where
  stream := by
    rw [Run.after_log, given_append, hcalls, h.stream, frames, List.flatMap_append,
      List.flatMap_replicate]
  chunk_le := by simpa [hle] using h.chunk_le
  isPrefix := by
    rw [← List.prefix_iff_eq_append.mp hchunk]
    exact (List.prefix_append_right_inj chunk).mpr h.isPrefix
  ends exit hexit := by
    rcases h.ends exit hexit with hreturned | ⟨rfl, hlength⟩
    · exact Or.inl hreturned
    · refine Or.inr ⟨rfl, ?_⟩
      simp only [List.map_cons, List.flatten_cons, List.length_append]
      omega

/-- A chunk that is sent some number of times, if at all, before a loop stops. -/
theorem Streams.last {k size m : ℕ} {rest chunk : List UInt8} {x : Link (Option ℤ)}
    (calls : List LinkCall) (hchunk : chunk <+: rest) (hsize : chunk.length ≤ size)
    (hle : chunk.length ≤ maxChunkLarge)
    (hcalls : given calls = (List.replicate m (packet chunk (sequenceAt k))).flatten)
    (hlog : given x.log = [])
    (hstatus : ∀ exit, x.status = .done exit → ∃ ret, ret < 0 ∧ exit = some ret) :
    ∃ sent, Streams k size rest (Run.after calls x) sent := by
  cases m with
  | zero =>
    refine ⟨[], Streams.stopped k size rest _ ?_ hstatus⟩
    rw [Run.after_log, given_append, hcalls, hlog]
    rfl
  | succ n =>
    exact ⟨_, Streams.cons calls n hchunk hsize hle hcalls
      (Streams.stopped (k + 1) _ _ x hlog hstatus)⟩

theorem Streams.nothing (k : ℕ) (rest : List UInt8) : Streams k 0 rest (pure none) [] where
  stream := rfl
  chunk_le := by simp
  isPrefix := List.nil_prefix
  ends exit h := Or.inr ⟨by simpa using h.symm, rfl⟩

/-- The loop over the file, for every sequence of reads and attempts. -/
theorem transferLoopLarge_streams (reads : List Outcome) (k size : ℕ) (rest : List UInt8)
    (attempts : List Attempt) :
    ∃ sent, Streams k size rest
      ((largeBuild signedChar).transferLoop reads size (sequenceAt k) rest attempts) sent := by
  induction reads generalizing k size rest attempts with
  | nil =>
    by_cases hsize : size = 0
    · subst hsize
      exact ⟨[], Streams.nothing k rest⟩
    · rw [Build.transferLoop_unread _ size _ rest attempts hsize]
      exact ⟨[], Streams.stopped k size rest _ rfl (by simp)⟩
  | cons outcome reads ih =>
    by_cases hsize : size = 0
    · subst hsize
      rw [Build.transferLoop_zero]
      exact ⟨[], Streams.nothing k rest⟩
    cases outcome with
    | none =>
      rw [Build.transferLoop_failed _ reads size _ rest attempts hsize]
      refine ⟨[], Streams.stopped k size rest _ ?_ (failedChunk_negative attempts)⟩
      simp [failedChunk_log, given]
    | some n =>
      obtain ⟨hle, hmax⟩ := (largeBuild signedChar).chunk_length_le size n rest
      have hchunk : (largeBuild signedChar).chunk size n rest <+: rest := List.take_prefix _ _
      have hrun := (largeBuild signedChar).transferLoop_cons n reads size (sequenceAt k) rest
        attempts hsize
      generalize (largeBuild signedChar).chunk size n rest = chunk at hle hmax hchunk hrun
      obtain ⟨m, hsends, hexit⟩ :=
        retryLoopLarge_sends signedChar chunk (sequenceAt k) hmax attempts 0
      have hcalls : given ([.fRead ((largeBuild signedChar).request size) chunk] ++
          ((largeBuild signedChar).retryLoop chunk (sequenceAt k) 0 attempts).log) =
            (List.replicate m (packet chunk (sequenceAt k))).flatten := by
        rw [given_append, hsends]
        rfl
      rw [hrun]
      by_cases hdone : ∃ exit, ((largeBuild signedChar).retryLoop chunk (sequenceAt k) 0
          attempts).status = .done exit
      · obtain ⟨exit, hdone⟩ := hdone
        rw [Run.bind_of_done _ _ exit hdone, Run.after_after]
        rcases hexit exit hdone with ⟨ret, hneg, rfl⟩ | ⟨hm, retry, left, rfl⟩
        · exact Streams.last _ hchunk hle hmax hcalls rfl (by simpa using hneg)
        · by_cases hretry : retry = retryMax
          · simp only [hretry, if_true]
            exact Streams.last _ hchunk hle hmax hcalls rfl (by simp)
          · obtain ⟨j, rfl⟩ := Nat.exists_eq_add_of_le' hm
            simp only [hretry, if_false, nextSequence_sequenceAt]
            obtain ⟨sent, h⟩ := ih (k + 1) (size - chunk.length) (rest.drop chunk.length) left
            exact ⟨_, Streams.cons _ j hchunk hle hmax hcalls h⟩
      · push Not at hdone
        obtain ⟨y, hy, hlog, hstopped⟩ := Run.bind_stopped _ _ hdone
        rw [hy, Run.after_after]
        exact Streams.last _ hchunk hle hmax hcalls (by simp [hlog, given])
          fun exit h => absurd h (hstopped exit)

end Run

/-! ### Whole transfers -/

/-- The target after the packets of a loop has their chunks, each once. -/
theorem foldlM_streams {size : ℕ} {rest : List UInt8} {x : Link (Option ℤ)}
    {sent : List (Sent (List UInt8))} (h : Streams 0 size rest x sent) (more : List UInt8) :
    ∃ last, target (given x.log ++ more) =
      more.foldlM targetStep ⟨.idle, last, (sent.map Sent.item).flatten⟩ := by
  obtain ⟨last, hlast⟩ := foldlM_packets _ (mem_frames_sequenceAt h.chunk_le) none [] more
  refine ⟨last, ?_⟩
  rw [target, h.stream]
  simp only [Option.map_none, List.nil_append] at hlast
  rw [hlast, keep_frames sequenceAt sequenceAt_ne_succ sent 0 none (by simp)]

/-- What a target has of a file, and what the sender made of it. -/
structure Received (file : List UInt8) (fSize : Option ℕ) (x : Link ℤ) (r : Receiver) : Prop where
  accepts : target (given x.log) = some r
  isPrefix : r.data <+: file
  ended_iff : r.phase = .ended ↔ x.status = .done 0
  size : r.phase = .ended → fSize = some r.data.length

/-- A run that is not over, or has failed. -/
theorem Received.unfinished {file : List UInt8} {fSize : Option ℕ} {x : Link ℤ} {r : Receiver}
    (haccepts : target (given x.log) = some r) (hbegins : r.data <+: file)
    (hphase : r.phase = .idle) (hstatus : x.status ≠ .done 0) : Received file fSize x r where
  accepts := haccepts
  isPrefix := hbegins
  ended_iff := by simp [hphase, hstatus]
  size hended := by simp [hphase] at hended

/-- A whole transfer, in any run: the target refuses nothing, has a beginning of the file and
has seen the end exactly when the sender returns 0; then it has as many bytes as f_size gave. -/
theorem large_transfer_safe (signedChar : Bool) (file : List UInt8) (env : KermitEnv) :
    ∃ r, Received file env.fSize (kSendDataLarge signedChar file env) r := by
  cases hsize : env.fSize with
  | none =>
    refine ⟨⟨.idle, none, []⟩, Received.unfinished ?_ List.nil_prefix rfl ?_⟩
    · rw [kSendDataLarge, Build.kSendData_unsized _ file env hsize]
      simp [target, given, LinkCall.given]
    · rw [kSendDataLarge, Build.kSendData_unsized _ file env hsize]
      simp [fileError]
  | some size =>
    by_cases hopen : env.fOpen = fileOk
    · obtain ⟨sent, h⟩ := transferLoopLarge_streams signedChar env.reads 0 size file env.attempts
      have hrun : kSendDataLarge signedChar file env = Run.after [.fSize size, .fOpen fileOk]
          ((largeBuild signedChar).transferLoop env.reads size (sequenceAt 0) file env.attempts >>=
            afterLoop env) := Build.kSendData_opened _ file env size hsize hopen
      have hopening : ∀ log, given ([.fSize size, .fOpen fileOk] ++ log) = given log :=
        fun log => by simp [given, LinkCall.given]
      rw [hrun]
      by_cases hdone : ∃ exit, ((largeBuild signedChar).transferLoop env.reads size (sequenceAt 0)
          file env.attempts).status = .done exit
      · obtain ⟨exit, hdone⟩ := hdone
        rw [Run.bind_of_done _ _ exit hdone]
        rcases h.ends exit hdone with ⟨ret, hneg, rfl⟩ | ⟨rfl, hlength⟩
        · obtain ⟨last, hlast⟩ := foldlM_streams h []
          refine ⟨⟨.idle, last, (sent.map Sent.item).flatten⟩,
            Received.unfinished ?_ h.isPrefix rfl (by simp [afterLoop]; omega)⟩
          rw [Run.after_log, hopening, Run.after_log, afterLoop, Run.pure_log, given_append]
          exact hlast
        · obtain ⟨last, hlast⟩ := foldlM_streams h [etxChar]
          refine ⟨⟨.ended, last, (sent.map Sent.item).flatten⟩, ?_, h.isPrefix,
            by simp [afterLoop], ?_⟩
          · rw [Run.after_log, hopening, Run.after_log, given_append]
            exact hlast
          · simp [hlength]
      · push Not at hdone
        obtain ⟨y, hy, hlog, hstopped⟩ := Run.bind_stopped _ _ hdone
        obtain ⟨last, hlast⟩ := foldlM_streams h []
        rw [hy]
        refine ⟨⟨.idle, last, (sent.map Sent.item).flatten⟩,
          Received.unfinished ?_ h.isPrefix rfl (hstopped 0)⟩
        rw [Run.after_log, hopening, Run.after_log, hlog, given_append]
        exact hlast
    · refine ⟨⟨.idle, none, []⟩, Received.unfinished ?_ List.nil_prefix rfl ?_⟩
      · rw [kSendDataLarge, Build.kSendData_not_open _ file env size hsize hopen]
        simp [target, given, LinkCall.given]
      · rw [kSendDataLarge, Build.kSendData_not_open _ file env size hsize hopen]
        simp

end OmapBootUtils.KermitLargeTransfer
