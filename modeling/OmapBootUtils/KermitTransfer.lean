import OmapBootUtils.KermitPacket
import OmapBootUtils.LinkCalls

/-!
The ukermit sender: one acknowledgement read and classified, the retry loop around
a packet, and the loop over the file, which are the same in every build; here they
run in the build with small packets. Each attempt scripts what its calls return; a
run that has used up its script waits.
-/
namespace OmapBootUtils.KermitTransfer

open ScriptedRun LinkCalls KermitPacket

def seqError : ℤ := 0x40
def chkError : ℤ := 0x41
def retryMax : ℕ := 4

/-- The results of one attempt: calloc, the two s_write calls, and the bytes
s_read delivers. s1_sendpacket and s1_getpacket discard the results. -/
structure Attempt where
  callocOk : Bool
  headerRet : ℤ
  bodyRet : ℤ
  reply : List UInt8

/-- struct kermit_ack_nack_type. -/
structure KermitAck where
  start : UInt8
  lengthNorm : UInt8
  sequenceNumber : UInt8
  packetType : UInt8
  checksum : UInt8
  eol : UInt8

def kermitAckSize : ℕ := 6

/-- The structure seen through the bytes read into it after memset. -/
def KermitAck.ofBytes (packet : List UInt8) : KermitAck where
  start := packet.getD 0 0
  lengthNorm := packet.getD 1 0
  sequenceNumber := packet.getD 2 0
  packetType := packet.getD 3 0
  checksum := packet.getD 4 0
  eol := packet.getD 5 0

def KermitAck.sum (k : KermitAck) : ℤ :=
  k.lengthNorm.toNat + k.sequenceNumber.toNat + k.packetType.toNat

def s1Getpacket (size : ℕ) (reply : List UInt8) : Link (List UInt8) := do
  let got := reply.take size
  Run.emit (.sRead size got)
  return got ++ List.replicate (size - got.length) 0

def s1Sendpacket (packet : List UInt8) (ret : ℤ) : Link Unit :=
  Run.emit (.sWrite packet ret)

def kSendDataPacketSmall (signedChar : Bool) (buffer : List UInt8) (sequence : UInt8)
    (a : Attempt) : Link ℤ :=
  if a.callocOk then do
    let packet := packetSmall signedChar buffer sequence
    s1Sendpacket packet.1 a.headerRet
    s1Sendpacket packet.2 a.bodyRet
    return 0
  else return -1

/-- The checks of kermit_ack_type on the packet it has read. -/
def ackResult (signedChar : Bool) (seqNum : ℤ) (kAck : KermitAck) : ℤ :=
  if (kAck.checksum.toNat : ℤ) ≠ charValue signedChar (checkChar kAck.sum) then chkError
  else if untochar kAck.sequenceNumber ≠ seqNum then seqError
  else if kAck.packetType = nackType then nackType.toNat
  else if kAck.packetType = ackType then ackType.toNat
  else -3

def kermitAckType (signedChar : Bool) (seqNum : ℤ) (reply : List UInt8) : Link ℤ := do
  let packet ← s1Getpacket kermitAckSize reply
  return ackResult signedChar seqNum (KermitAck.ofBytes packet)

/-- How the retry loop is left: by a return statement of k_send_data, or at its
end with the retry count and the attempts still to come. -/
inductive LoopExit where
  | returned (ret : ℤ)
  | left (retry : ℕ) (attempts : List Attempt)

/-- What a build fixes: the signedness of char, MAX_CHUNK and the packet function. -/
structure Build where
  signedChar : Bool
  maxChunk : ℕ
  packet : List UInt8 → UInt8 → Attempt → Link ℤ

/-- The do-while loop that transmits one chunk until it is acknowledged. -/
def Build.retryLoop (build : Build) (buffer : List UInt8) (sequence : UInt8) :
    ℕ → List Attempt → Link LoopExit
  | _, [] => Run.block
  | retry, a :: attempts => do
      let ret ← build.packet buffer sequence a
      if ret < 0 then return .returned ret else
      let ret ← kermitAckType build.signedChar sequence.toNat a.reply
      if ret < 0 then return .returned ret else
      let retry := if ret ≠ ackType.toNat then retry + 1 else retry
      if ret ≠ ackType.toNat ∧ retry < retryMax then
        build.retryLoop buffer sequence retry attempts
      else return .left retry attempts

/-- The sequence number of the next chunk. -/
def nextSequence (sequence : UInt8) : UInt8 :=
  let sequence := sequence + 1
  if sequence > 0x7F then 0 else sequence

/-- The chunk of a failed f_read, which leaves 0xFFFFFFFF in the unsigned send_size
where the test for a negative size misses it. The packet function, if its calloc
of 1 byte succeeds, runs out of its buffer. -/
def failedChunk : List Attempt → Link (Option ℤ)
  | [] => Run.block
  | a :: _ => if a.callocOk then Run.crash else return some (-1)

/-- The while loop over the file: `some ret` is a return from inside it. -/
def Build.transferLoop (build : Build) :
    List Outcome → ℕ → UInt8 → List UInt8 → List Attempt → Link (Option ℤ)
  | [], size, _, _, _ => if size = 0 then return none else Run.block
  | outcome :: reads, size, sequence, rest, attempts =>
      if size = 0 then return none else
      let sendSize := if size > build.maxChunk then build.maxChunk else size
      match outcome with
      | none => failedChunk attempts
      | some n => do
          let buffer := rest.take (min n sendSize)
          Run.emit (.fRead sendSize buffer)
          match ← build.retryLoop buffer sequence 0 attempts with
          | .returned ret => return some ret
          | .left retry attempts =>
              if retry = retryMax then return some (-1) else
              build.transferLoop reads (size - buffer.length) (nextSequence sequence)
                (rest.drop buffer.length) attempts

/-- The results of the calls k_send_data makes; f_size is FILE_ERROR or a size. -/
structure KermitEnv where
  fSize : Option ℕ
  fOpen : ℤ
  reads : List Outcome
  attempts : List Attempt
  etxRet : ℤ
  fClose : ℤ

def Build.kSendData (build : Build) (file : List UInt8) (env : KermitEnv) : Link ℤ :=
  match env.fSize with
  | none => do
      Run.emit (.fSize fileError)
      return fileError
  | some size => do
      Run.emit (.fSize size)
      Run.emit (.fOpen env.fOpen)
      if env.fOpen ≠ fileOk then return -1 else
      match ← build.transferLoop env.reads size 0 file env.attempts with
      | some ret => return ret
      | none => do
          s1Sendpacket [etxChar] env.etxRet
          Run.emit (.fClose env.fClose)
          return 0

/-! ### The build with small packets -/

def smallBuild (signedChar : Bool) : Build where
  signedChar := signedChar
  maxChunk := maxChunk
  packet := kSendDataPacketSmall signedChar

@[simp] theorem smallBuild_signedChar (signedChar : Bool) :
    (smallBuild signedChar).signedChar = signedChar := rfl

@[simp] theorem smallBuild_packet (signedChar : Bool) :
    (smallBuild signedChar).packet = kSendDataPacketSmall signedChar := rfl

def retryLoop (signedChar : Bool) : List UInt8 → UInt8 → ℕ → List Attempt → Link LoopExit :=
  (smallBuild signedChar).retryLoop

def transferLoop (signedChar : Bool) :
    List Outcome → ℕ → UInt8 → List UInt8 → List Attempt → Link (Option ℤ) :=
  (smallBuild signedChar).transferLoop

def kSendData (signedChar : Bool) : List UInt8 → KermitEnv → Link ℤ :=
  (smallBuild signedChar).kSendData

/-! ### Acknowledgements -/

/-- A reply with the right checksum, the expected sequence number and type 'Y';
the missing tail of a short reply reads as zero. -/
def GoodAck (seqNum : ℕ) (reply : List UInt8) : Prop :=
  let kAck := KermitAck.ofBytes reply
  kAck.checksum = checkChar kAck.sum ∧ untochar kAck.sequenceNumber = seqNum ∧
    kAck.packetType = ackType

instance (seqNum : ℕ) (reply : List UInt8) : Decidable (GoodAck seqNum reply) := by
  unfold GoodAck
  infer_instance

theorem getD_zero_fill (reply : List UInt8) (size i : ℕ) (h : i < size) :
    (reply.take size ++ List.replicate (size - (reply.take size).length) 0).getD i 0 =
      reply.getD i 0 := by
  simp only [List.getD_eq_getElem?_getD]
  by_cases hi : i < reply.length
  · rw [List.getElem?_append_left (by simp only [List.length_take]; omega),
      List.getElem?_take_of_lt h]
  · rw [List.getElem?_append_right (by simp only [List.length_take]; omega),
      List.getElem?_eq_none (l := reply) (by omega), List.getElem?_replicate]
    split <;> rfl

theorem ofBytes_zero_fill (reply : List UInt8) :
    KermitAck.ofBytes (reply.take kermitAckSize ++
      List.replicate (kermitAckSize - (reply.take kermitAckSize).length) 0) =
        KermitAck.ofBytes reply := by
  have h : ∀ i, i < 6 → _ := fun i hi => getD_zero_fill reply kermitAckSize i hi
  unfold KermitAck.ofBytes
  rw [h 0 (by omega), h 1 (by omega), h 2 (by omega), h 3 (by omega), h 4 (by omega),
    h 5 (by omega)]

theorem charValue_checkChar (signedChar : Bool) (sum : ℤ) :
    charValue signedChar (checkChar sum) = (checkChar sum).toNat := by
  have h := checkChar_bounds sum
  unfold charValue
  rw [if_neg (by omega)]

theorem checksum_ne_iff (signedChar : Bool) (k : KermitAck) :
    (k.checksum.toNat : ℤ) ≠ charValue signedChar (checkChar k.sum) ↔
      k.checksum ≠ checkChar k.sum := by
  rw [charValue_checkChar, Ne, Ne, Int.natCast_inj, UInt8.toNat_inj]

/-- The classification is an ACK exactly on the good acknowledgements. -/
theorem ackResult_eq_ack_iff (signedChar : Bool) (seqNum : ℕ) (reply : List UInt8) :
    ackResult signedChar seqNum (KermitAck.ofBytes reply) = ackType.toNat ↔
      GoodAck seqNum reply := by
  unfold ackResult GoodAck
  simp only [checksum_ne_iff]
  by_cases hc : (KermitAck.ofBytes reply).checksum = checkChar (KermitAck.ofBytes reply).sum
  · by_cases hs : untochar (KermitAck.ofBytes reply).sequenceNumber = seqNum
    · by_cases hn : (KermitAck.ofBytes reply).packetType = nackType
      · simp [hc, hs, hn, nackType, ackType]
      · by_cases ha : (KermitAck.ofBytes reply).packetType = ackType
        · have hna : ackType ≠ nackType := by decide
          simp [hc, hs, ha, hna]
        · have hother : (-3 : ℤ) ≠ ackType.toNat := by decide
          simp only [hc, hs, hn, ha, ne_eq, not_true_eq_false, if_false, and_false, iff_false]
          exact hother
    · simp [hc, hs, seqError, ackType]
  · simp [hc, chkError, ackType]

theorem kermitAckType_eq (signedChar : Bool) (seqNum : ℤ) (reply : List UInt8) :
    kermitAckType signedChar seqNum reply =
      Run.after [.sRead kermitAckSize (reply.take kermitAckSize)]
        (pure (ackResult signedChar seqNum (KermitAck.ofBytes reply))) := by
  simp only [kermitAckType, s1Getpacket, Run.emit_bind, Run.after_bind, Run.pure_bind,
    ofBytes_zero_fill]

/-- A reply of fewer than five bytes has no checksum byte and is corrupt. -/
theorem ackResult_short (signedChar : Bool) (seqNum : ℤ) (reply : List UInt8)
    (h : reply.length < 5) :
    ackResult signedChar seqNum (KermitAck.ofBytes reply) = chkError := by
  have hzero : (KermitAck.ofBytes reply).checksum = 0 := by
    simp [KermitAck.ofBytes, List.getD_eq_getElem?_getD,
      List.getElem?_eq_none (show reply.length ≤ 4 by omega)]
  have hcheck := checkChar_bounds (KermitAck.ofBytes reply).sum
  have hne : (KermitAck.ofBytes reply).checksum ≠ checkChar (KermitAck.ofBytes reply).sum := by
    rw [hzero]
    intro heq
    rw [← heq] at hcheck
    simp at hcheck
  unfold ackResult
  rw [if_pos ((checksum_ne_iff signedChar _).mpr hne)]

/-- The six bytes with which a target acknowledges a packet. -/
def ackPacket (seqNum : ℕ) : List UInt8 :=
  let lengthNorm := tochar 3
  let sequenceNumber := tochar seqNum
  [startChar, lengthNorm, sequenceNumber, ackType,
    checkChar (lengthNorm.toNat + sequenceNumber.toNat + ackType.toNat), endChar]

@[simp] theorem ackPacket_length (seqNum : ℕ) : (ackPacket seqNum).length = kermitAckSize := rfl

theorem goodAck_ackPacket (seqNum : ℕ) (h : seqNum < 128) : GoodAck seqNum (ackPacket seqNum) :=
  ⟨rfl, untochar_tochar seqNum (by omega) (by omega), rfl⟩

/-! ### The loops of any build -/

/-- How k_send_data goes on after its loop. -/
def afterLoop (env : KermitEnv) : Option ℤ → Link ℤ
  | some ret => pure ret
  | none => Run.after [.sWrite [etxChar] env.etxRet, .fClose env.fClose] (pure 0)

namespace Build

section Loops
variable (build : Build)

theorem retryLoop_returned (buffer : List UInt8) (sequence : UInt8) (retry : ℕ) (a : Attempt)
    (attempts : List Attempt) (h : build.packet buffer sequence a = pure (-1)) :
    build.retryLoop buffer sequence retry (a :: attempts) = pure (.returned (-1)) := by
  simp [Build.retryLoop, h]

/-- One attempt: the packet goes out, the reply is read and classified. -/
theorem retryLoop_attempt (buffer : List UInt8) (sequence : UInt8) (retry : ℕ) (a : Attempt)
    (attempts : List Attempt) (puts : List LinkCall)
    (hpacket : build.packet buffer sequence a = Run.after puts (pure 0)) (ret : ℤ)
    (hret : ackResult build.signedChar sequence.toNat (KermitAck.ofBytes a.reply) = ret) :
    build.retryLoop buffer sequence retry (a :: attempts) =
      Run.after (puts ++ [.sRead kermitAckSize (a.reply.take kermitAckSize)])
        (if ret < 0 then pure (.returned ret)
        else if ret = ackType.toNat then pure (.left retry attempts)
        else if retry + 1 < retryMax then build.retryLoop buffer sequence (retry + 1) attempts
        else pure (.left (retry + 1) attempts)) := by
  rw [Build.retryLoop, hpacket]
  simp only [kermitAckType_eq, Run.after_bind, Run.pure_bind, Run.after_after, lt_self_iff_false,
    if_false, hret]
  congr 1
  by_cases hneg : ret < 0
  · simp [hneg]
  · by_cases hack : ret = ackType.toNat
    · simp [hack]
    · simp [hneg, hack]

theorem transferLoop_zero (reads : List Outcome) (sequence : UInt8) (rest : List UInt8)
    (attempts : List Attempt) :
    build.transferLoop reads 0 sequence rest attempts = pure none := by
  cases reads <;> simp [Build.transferLoop]

theorem transferLoop_unread (size : ℕ) (sequence : UInt8) (rest : List UInt8)
    (attempts : List Attempt) (hsize : size ≠ 0) :
    build.transferLoop [] size sequence rest attempts = Run.block := by
  rw [Build.transferLoop, if_neg hsize]

theorem transferLoop_failed (reads : List Outcome) (size : ℕ) (sequence : UInt8)
    (rest : List UInt8) (attempts : List Attempt) (hsize : size ≠ 0) :
    build.transferLoop (none :: reads) size sequence rest attempts = failedChunk attempts := by
  rw [Build.transferLoop, if_neg hsize]

/-- What f_read is asked for. -/
def request (size : ℕ) : ℕ := if size > build.maxChunk then build.maxChunk else size

/-- The bytes f_read returns for a chunk. -/
def chunk (size n : ℕ) (rest : List UInt8) : List UInt8 := rest.take (min n (build.request size))

theorem request_le (size : ℕ) : build.request size ≤ build.maxChunk := by
  unfold request
  split <;> omega

theorem chunk_length_le (size n : ℕ) (rest : List UInt8) :
    (build.chunk size n rest).length ≤ size ∧
      (build.chunk size n rest).length ≤ build.maxChunk := by
  unfold chunk request
  rw [List.length_take]
  split <;> omega

theorem transferLoop_cons (n : ℕ) (reads : List Outcome) (size : ℕ) (sequence : UInt8)
    (rest : List UInt8) (attempts : List Attempt) (hsize : size ≠ 0) :
    build.transferLoop (some n :: reads) size sequence rest attempts =
      Run.after [.fRead (build.request size) (build.chunk size n rest)]
        (build.retryLoop (build.chunk size n rest) sequence 0 attempts >>= fun x =>
          match x with
          | .returned ret => pure (some ret)
          | .left retry attempts =>
              if retry = retryMax then pure (some (-1)) else
              build.transferLoop reads (size - (build.chunk size n rest).length)
                (nextSequence sequence) (rest.drop (build.chunk size n rest).length) attempts) := by
  rw [Build.transferLoop, if_neg hsize]
  rfl

theorem kSendData_unsized (file : List UInt8) (env : KermitEnv) (hsize : env.fSize = none) :
    build.kSendData file env = Run.after [.fSize fileError] (pure fileError) := by
  simp [Build.kSendData, hsize]

theorem kSendData_not_open (file : List UInt8) (env : KermitEnv) (size : ℕ)
    (hsize : env.fSize = some size) (hopen : env.fOpen ≠ fileOk) :
    build.kSendData file env = Run.after [.fSize size, .fOpen env.fOpen] (pure (-1)) := by
  unfold Build.kSendData
  simp only [hsize, Run.emit_bind, Run.after_after]
  rw [if_pos hopen]
  rfl

/-- What k_send_data does with the file open. -/
theorem kSendData_opened (file : List UInt8) (env : KermitEnv) (size : ℕ)
    (hsize : env.fSize = some size) (hopen : env.fOpen = fileOk) :
    build.kSendData file env = Run.after [.fSize size, .fOpen fileOk]
      (build.transferLoop env.reads size 0 file env.attempts >>= afterLoop env) := by
  simp only [Build.kSendData, hsize, hopen, ne_eq, not_true_eq_false, if_false, Run.emit_bind,
    Run.after_after]
  congr 2

end Loops

end Build

theorem smallBuild_request (signedChar : Bool) (size : ℕ) :
    (smallBuild signedChar).request size = if size > maxChunk then maxChunk else size := rfl

end OmapBootUtils.KermitTransfer
