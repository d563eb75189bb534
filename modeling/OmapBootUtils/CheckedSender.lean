import OmapBootUtils.InstrumentedRun
import OmapBootUtils.KermitReads
import OmapBootUtils.PacketStores
import OmapBootUtils.ReleasedRuns

/-!
The ukermit sender with the sizes it computes: the result of f_read in an unsigned
send_size, the calls of the packet function, and its stores. With its own calls
left out it is the sender of the transfer, so what is known of one holds of the
other. A failed f_read sends the packet function off with 0xFFFFFFFF bytes.
-/
namespace OmapBootUtils.CheckedSender

open ScriptedRun LinkCalls KermitPacket KermitTransfer KermitRounds KermitReads PacketStores
open ReleasedRuns InstrumentedRun

/-! ### The sender -/

/-- What a run does: a call of the link, an f_read that fails, and a call of the packet
function with the size that the f_read before it was asked for. -/
inductive SendCall where
  | link (call : LinkCall)
  | fReadFailed (requested : ℕ)
  | encode (requested : ℕ) (size : UInt32)
  deriving DecidableEq, Repr

abbrev Send := Run SendCall

/-- The array of MAX_CHUNK bytes that is read into and sent from. -/
structure ChunkBuffer where
  bytes : List UInt8
  full : bytes.length = maxChunk

/-- The array after bytes were stored at its beginning. -/
def ChunkBuffer.fill (buffer : ChunkBuffer) (data : List UInt8) : ChunkBuffer where
  bytes := (data ++ buffer.bytes.drop data.length).take maxChunk
  full := by
    have := buffer.full
    simp
    omega

theorem ChunkBuffer.fill_take (buffer : ChunkBuffer) (data : List UInt8)
    (h : data.length ≤ maxChunk) : (buffer.fill data).bytes.take data.length = data := by
  rw [ChunkBuffer.fill, List.take_take, Nat.min_eq_left h, List.take_left]

/-- A call sequence of the transfer as one of the sender. -/
abbrev onLink {α : Type} (x : Link α) : Send α := embed SendCall.link x

/-- f_read into the array, and its result. -/
def fRead (requested : ℕ) (rest : List UInt8) (buffer : ChunkBuffer) :
    Outcome → Send (ℤ × ChunkBuffer)
  | none => do
      Run.emit (.fReadFailed requested)
      return (fileError, buffer)
  | some n => do
      let data := rest.take (min n requested)
      Run.emit (.link (.fRead requested data))
      return (data.length, buffer.fill data)

/-- k_send_data_packet_small, with its stores. -/
def sendPacket (signedChar : Bool) (buffer : ChunkBuffer) (size : UInt32) (sequence : UInt8)
    (a : Attempt) : Send ℤ :=
  if a.callocOk then
    match encodeSmall signedChar buffer.bytes size sequence with
    | none => Run.crash
    | some packet => do
        onLink (s1Sendpacket packet.1 a.headerRet)
        onLink (s1Sendpacket packet.2 a.bodyRet)
        return 0
  else return -1

/-- The do-while loop around a packet. -/
def checkedRetry (signedChar : Bool) (buffer : ChunkBuffer) (requested : ℕ) (size : UInt32)
    (sequence : UInt8) : ℕ → List Attempt → Send LoopExit
  | _, [] => do
      Run.emit (.encode requested size)
      Run.block
  | retry, a :: attempts => do
      Run.emit (.encode requested size)
      let ret ← sendPacket signedChar buffer size sequence a
      if ret < 0 then return .returned ret else
      let ret ← onLink (kermitAckType signedChar sequence.toNat a.reply)
      if ret < 0 then return .returned ret else
      let retry := if ret ≠ ackType.toNat then retry + 1 else retry
      if ret ≠ ackType.toNat ∧ retry < retryMax then
        checkedRetry signedChar buffer requested size sequence retry attempts
      else return .left retry attempts

/-- The while loop over the file; `send_size < 0` compares an unsigned int. -/
def checkedTransfer (signedChar : Bool) :
    List Outcome → ℕ → UInt8 → List UInt8 → ChunkBuffer → List Attempt → Send (Option ℤ)
  | [], size, _, _, _, _ => if size = 0 then return none else Run.block
  | outcome :: reads, size, sequence, rest, buffer, attempts =>
      if size = 0 then return none else do
      let requested := if size > maxChunk then maxChunk else size
      let (ret, buffer) ← fRead requested rest buffer outcome
      let sendSize := UInt32.ofInt ret
      if sendSize < 0 then return none else
      match ← checkedRetry signedChar buffer requested sendSize sequence 0 attempts with
      | .returned ret => return some ret
      | .left retry attempts =>
          if retry = retryMax then return some (-1) else
          checkedTransfer signedChar reads (size - sendSize.toNat) (nextSequence sequence)
            (rest.drop sendSize.toNat) buffer attempts

/-- k_send_data; `buffer` is its array before anything is read into it. -/
def checkedSend (signedChar : Bool) (file : List UInt8) (buffer : ChunkBuffer) (env : KermitEnv) :
    Send ℤ :=
  match env.fSize with
  | none => do
      Run.emit (.link (.fSize fileError))
      return fileError
  | some size => do
      Run.emit (.link (.fSize size))
      Run.emit (.link (.fOpen env.fOpen))
      if env.fOpen ≠ fileOk then return -1 else
      match ← checkedTransfer signedChar env.reads size 0 file buffer env.attempts with
      | some ret => return ret
      | none => do
          onLink (s1Sendpacket [etxChar] env.etxRet)
          Run.emit (.link (.fClose env.fClose))
          return 0

/-! ### The calls of the link -/

@[simp] def SendCall.toLink : SendCall → Option LinkCall
  | .link call => some call
  | _ => none

@[simp] theorem erase_onLink {α : Type} (x : Link α) : erase SendCall.toLink (onLink x) = x :=
  erase_embed SendCall.toLink SendCall.link (fun _ => rfl) x

variable (signedChar : Bool)

/-- An unsigned int is not negative. -/
theorem not_neg (size : UInt32) : ¬ size < 0 := by
  rw [UInt32.lt_iff_toNat_lt]
  exact Nat.not_lt_zero _

theorem sendSize_toNat (n : ℕ) (h : n ≤ maxChunk) : (UInt32.ofInt n).toNat = n := by
  have hmax : maxChunk = 100 := rfl
  rw [UInt32.ofInt, UInt32.toNat_ofNat']
  omega

/-- A chunk is sent as the transfer sends it. -/
theorem erase_checkedRetry (buffer : ChunkBuffer) (requested : ℕ) (size : UInt32)
    (sequence : UInt8) (retry : ℕ) (attempts : List Attempt) (h : size.toNat ≤ maxChunk) :
    erase SendCall.toLink (checkedRetry signedChar buffer requested size sequence retry attempts) =
      retryLoop signedChar (buffer.bytes.take size.toNat) sequence retry attempts := by
  have hencode := encodeSmall_of_le signedChar buffer.bytes size sequence h
    (buffer.full.symm ▸ h)
  rw [retryLoop]
  induction attempts generalizing retry with
  | nil => simp [checkedRetry, Build.retryLoop, List.filterMap_cons]
  | cons a attempts ih =>
    rw [checkedRetry, Build.retryLoop, sendPacket, smallBuild_packet, smallBuild_signedChar,
      kSendDataPacketSmall, hencode]
    cases a.callocOk with
    | false => simp [List.filterMap_cons]
    | true =>
      simp only [if_true, Run.emit_bind, erase_after, erase_bind, erase_onLink, erase_pure,
        apply_ite (erase SendCall.toLink), ih, List.filterMap_cons, SendCall.toLink,
        List.filterMap_nil, Run.after_nil]

theorem checkedTransfer_zero (reads : List Outcome) (sequence : UInt8) (rest : List UInt8)
    (buffer : ChunkBuffer) (attempts : List Attempt) :
    checkedTransfer signedChar reads 0 sequence rest buffer attempts = pure none := by
  cases reads <;> simp [checkedTransfer]

/-- A round that reads: the chunk is sent from the array it was read into. -/
theorem checkedTransfer_cons (n : ℕ) (reads : List Outcome) (size : ℕ) (sequence : UInt8)
    (rest : List UInt8) (buffer : ChunkBuffer) (attempts : List Attempt) (hsize : size ≠ 0) :
    checkedTransfer signedChar (some n :: reads) size sequence rest buffer attempts =
      Run.after [.link (.fRead ((smallBuild signedChar).request size) (readChunk size n rest))]
        (checkedRetry signedChar (buffer.fill (readChunk size n rest)) ((smallBuild signedChar).request size)
          (UInt32.ofInt (readChunk size n rest).length) sequence 0 attempts >>= fun x =>
          match x with
          | .returned ret => pure (some ret)
          | .left retry attempts =>
              if retry = retryMax then pure (some (-1)) else
              checkedTransfer signedChar reads (size - (readChunk size n rest).length)
                (nextSequence sequence) (rest.drop (readChunk size n rest).length)
                (buffer.fill (readChunk size n rest)) attempts) := by
  have hlen := sendSize_toNat _ (readChunk_length_le_maxChunk size n rest)
  rw [checkedTransfer, if_neg hsize]
  simp only [fRead, Run.emit_bind, Run.after_bind, Run.pure_bind, not_neg, if_false]
  unfold readChunk at hlen ⊢
  rw [hlen, smallBuild_request]

/-- A packet of 0xFFFFFFFF bytes is not sent. -/
theorem checkedRetry_wrapped (buffer : ChunkBuffer) (requested : ℕ) (sequence : UInt8)
    (retry : ℕ) (attempts : List Attempt) (next : ℕ → List Attempt → Send (Option ℤ)) :
    (checkedRetry signedChar buffer requested 0xFFFFFFFF sequence retry attempts >>= fun x =>
        match x with
        | .returned ret => pure (some ret)
        | .left retry attempts => next retry attempts) =
      Run.after [.encode requested 0xFFFFFFFF] (onLink (failedChunk attempts)) := by
  rcases attempts with _ | ⟨a, attempts⟩
  · rfl
  · rw [checkedRetry, sendPacket, encodeSmall_wrapped]
    cases ha : a.callocOk with
    | false =>
      simp [failedChunk, ha]
      rfl
    | true =>
      simp [failedChunk, ha]
      rfl

theorem checkedTransfer_failed (reads : List Outcome) (size : ℕ) (sequence : UInt8)
    (rest : List UInt8) (buffer : ChunkBuffer) (attempts : List Attempt) (hsize : size ≠ 0) :
    checkedTransfer signedChar (none :: reads) size sequence rest buffer attempts =
      Run.after [.fReadFailed ((smallBuild signedChar).request size), .encode ((smallBuild signedChar).request size) 0xFFFFFFFF]
        (onLink (failedChunk attempts)) := by
  have hsend : UInt32.ofInt fileError = 0xFFFFFFFF := by decide
  rw [checkedTransfer, if_neg hsize, ← smallBuild_request signedChar]
  simp only [fRead, Run.emit_bind, Run.after_bind, Run.pure_bind, not_neg, if_false, hsend]
  rw [checkedRetry_wrapped signedChar buffer ((smallBuild signedChar).request size) sequence 0 attempts
    fun retry attempts => if retry = retryMax then pure (some (-1)) else _, Run.after_after]
  rfl

/-- The transfer is what the sender does on the link. -/
theorem erase_checkedTransfer (reads : List Outcome) (size : ℕ) (sequence : UInt8)
    (rest : List UInt8) (buffer : ChunkBuffer) (attempts : List Attempt) :
    erase SendCall.toLink (checkedTransfer signedChar reads size sequence rest buffer attempts) =
      transferLoop signedChar reads size sequence rest attempts := by
  induction reads generalizing size sequence rest buffer attempts with
  | nil =>
    rw [checkedTransfer, transferLoop, Build.transferLoop]
    split <;> rfl
  | cons outcome reads ih =>
    by_cases hsize : size = 0
    · subst hsize
      rw [checkedTransfer_zero, transferLoop_zero, erase_pure]
    · cases outcome with
      | none =>
        rw [checkedTransfer_failed signedChar reads size sequence rest buffer attempts hsize,
          transferLoop_failed signedChar reads size sequence rest attempts hsize]
        simp [List.filterMap_cons]
      | some n =>
        have hle := readChunk_length_le_maxChunk size n rest
        have hlen := sendSize_toNat _ hle
        rw [checkedTransfer_cons signedChar n reads size sequence rest buffer attempts hsize,
          transferLoop_cons signedChar n reads size sequence rest attempts hsize, erase_after,
          erase_bind, erase_checkedRetry signedChar _ _ _ _ _ _ (hlen.symm ▸ hle), hlen,
          ChunkBuffer.fill_take _ _ hle]
        simp only [List.filterMap_cons, SendCall.toLink, List.filterMap_nil]
        congr 2
        funext exit
        cases exit with
        | returned ret => rfl
        | left retry attempts =>
          simp only [apply_ite (erase SendCall.toLink), erase_pure, ih]

/-- With its own calls left out, the sender is k_send_data of the transfer. -/
theorem erase_checkedSend (file : List UInt8) (buffer : ChunkBuffer) (env : KermitEnv) :
    erase SendCall.toLink (checkedSend signedChar file buffer env) =
      kSendData signedChar file env := by
  unfold checkedSend kSendData Build.kSendData
  cases env.fSize with
  | none => simp
  | some size =>
    simp only [Run.emit_bind, erase_after, List.filterMap_cons, SendCall.toLink, List.filterMap_nil]
    split
    · rfl
    · rw [erase_bind, erase_checkedTransfer]
      congr 3
      funext exit
      cases exit <;> simp

/-! ### Bounds -/

/-- The size is at most what was asked for, a chunk, and its allocation does not wrap. -/
def InBounds (requested : ℕ) (size : UInt32) : Prop :=
  size.toNat ≤ requested ∧ requested ≤ maxChunk ∧ (allocSize size).toNat = size.toNat * 2 + 3

/-- Calls that only a failed f_read leads to, one of them in every such run. -/
structure TellsFailedRead (p : SendCall → Prop) : Prop where
  link : ∀ call, ¬ p (.link call)
  encode : ∀ requested size, InBounds requested size → ¬ p (.encode requested size)
  failed : ∀ requested, requested ≤ maxChunk →
    p (.fReadFailed requested) ∨ p (.encode requested 0xFFFFFFFF)

section Bounds

variable {p : SendCall → Prop}

theorem avoids_onLink (hp : TellsFailedRead p) {α : Type} (x : Link α) : Avoids p (onLink x) := by
  intro c hc
  obtain ⟨call, _, rfl⟩ := List.mem_map.mp hc
  exact hp.link call

theorem sendPacket_avoids (hp : TellsFailedRead p) (buffer : ChunkBuffer) (size : UInt32)
    (sequence : UInt8) (a : Attempt) :
    Avoids p (sendPacket signedChar buffer size sequence a) := by
  unfold sendPacket
  split
  · split
    · exact Avoids.crash _
    · exact Avoids.bind _ _ _ (avoids_onLink hp _) fun _ =>
        Avoids.bind _ _ _ (avoids_onLink hp _) fun _ => Avoids.pure _ _
  · exact Avoids.pure _ _

/-- A chunk no larger than what was asked for is sent within bounds. -/
theorem checkedRetry_avoids (hp : TellsFailedRead p) (buffer : ChunkBuffer) (requested : ℕ)
    (size : UInt32) (sequence : UInt8) (retry : ℕ) (attempts : List Attempt)
    (h : InBounds requested size) :
    Avoids p (checkedRetry signedChar buffer requested size sequence retry attempts) := by
  have hencode := hp.encode requested size h
  induction attempts generalizing retry with
  | nil => exact Avoids.bind _ _ _ (Avoids.emit _ _ hencode) fun _ => Avoids.block _
  | cons a attempts ih =>
    rw [checkedRetry]
    apply Avoids.bind _ _ _ (Avoids.emit _ _ hencode)
    intro _
    apply Avoids.bind _ _ _ (sendPacket_avoids signedChar hp buffer size sequence a)
    intro ret
    split
    · exact Avoids.pure _ _
    · apply Avoids.bind _ _ _ (avoids_onLink hp _)
      intro ret
      split
      · exact Avoids.pure _ _
      · simp only
        generalize (if ret ≠ (ackType.toNat : ℤ) then retry + 1 else retry) = tries
        split
        · exact ih _
        · exact Avoids.pure _ _

/-- Sending a chunk ends as it does in the transfer. -/
theorem checkedRetry_status (size n : ℕ) (rest : List UInt8) (buffer : ChunkBuffer)
    (sequence : UInt8) (attempts : List Attempt) :
    (checkedRetry signedChar (buffer.fill (readChunk size n rest)) ((smallBuild signedChar).request size)
        (UInt32.ofInt (readChunk size n rest).length) sequence 0 attempts).status =
      (retryLoop signedChar (readChunk size n rest) sequence 0 attempts).status := by
  have hle := readChunk_length_le_maxChunk size n rest
  have hlen := sendSize_toNat _ hle
  rw [← erase_status, erase_checkedRetry signedChar _ _ _ _ _ _ (hlen.symm ▸ hle), hlen,
    ChunkBuffer.fill_take _ _ hle]

theorem readChunk_inBounds (size n : ℕ) (rest : List UInt8) :
    InBounds ((smallBuild signedChar).request size) (UInt32.ofInt (readChunk size n rest).length) := by
  have hle := readChunk_length_le_maxChunk size n rest
  have hlen := sendSize_toNat _ hle
  refine ⟨?_, (smallBuild signedChar).request_le size, allocSize_toNat _ (hlen.symm ▸ hle)⟩
  rw [hlen, readChunk, List.length_take, smallBuild_request]
  omega

/-- The file loop makes such a call exactly if it comes to an f_read that fails. -/
theorem checkedTransfer_avoids_iff (hp : TellsFailedRead p) (reads : List Outcome) (k size : ℕ)
    (rest : List UInt8) (buffer : ChunkBuffer) (attempts : List Attempt) :
    Avoids p (checkedTransfer signedChar reads size (sequenceAt k) rest buffer attempts) ↔
      ¬ ∃ unused, FailedReadReached signedChar unused k size rest reads attempts := by
  induction reads generalizing k size rest buffer attempts with
  | nil =>
    refine iff_of_true ?_ (by simp [FailedReadReached])
    rw [checkedTransfer]
    split
    · exact Avoids.pure _ _
    · exact Avoids.block _
  | cons outcome reads ih =>
    by_cases hsize : size = 0
    · subst hsize
      rw [checkedTransfer_zero]
      exact iff_of_true (Avoids.pure _ _) (by simp [not_failedReadReached_zero])
    · cases outcome with
      | none =>
        rw [checkedTransfer_failed signedChar reads size (sequenceAt k) rest buffer attempts hsize,
          avoids_after_iff]
        refine iff_of_false ?_ (by simp [FailedReadReached, hsize])
        rintro ⟨hnone, _⟩
        rcases hp.failed ((smallBuild signedChar).request size) ((smallBuild signedChar).request_le size) with h | h
        · exact hnone _ (by simp) h
        · exact hnone _ (by simp) h
      | some n =>
        have hretry := checkedRetry_avoids signedChar hp (buffer.fill (readChunk size n rest))
          ((smallBuild signedChar).request size) _ (sequenceAt k) 0 attempts (readChunk_inBounds signedChar size n rest)
        have hleft := fun left => retryLoop_left_iff signedChar (readChunk size n rest)
          (sequenceAt k) attempts left 0 (by decide)
        rw [sequenceAt_toNat] at hleft
        rw [checkedTransfer_cons signedChar n reads size (sequenceAt k) rest buffer attempts hsize,
          avoids_after_iff, avoids_bind_iff, checkedRetry_status, nextSequence_sequenceAt]
        simp only [failedReadReached_some_iff signedChar _ k size n rest reads attempts hsize]
        constructor
        · rintro ⟨_, _, hnext⟩ ⟨unused, left, hack, hreach⟩
          obtain ⟨tries, htries, hexit⟩ := (hleft left).mpr hack
          have hafter := hnext _ hexit
          simp only [htries, if_false] at hafter
          exact (ih _ _ _ _ _).mp hafter ⟨unused, hreach⟩
        · intro hnot
          refine ⟨by simpa using hp.link _, hretry, fun exit hexit => ?_⟩
          cases exit with
          | returned ret => exact Avoids.pure _ _
          | left tries left =>
            by_cases htries : tries = retryMax
            · simp only [htries, if_true]
              exact Avoids.pure _ _
            · simp only [htries, if_false]
              apply (ih _ _ _ _ _).mpr
              rintro ⟨unused, hreach⟩
              exact hnot ⟨unused, left, (hleft left).mp ⟨tries, htries, hexit⟩, hreach⟩

theorem checkedSend_avoids_iff (hp : TellsFailedRead p) (file : List UInt8) (buffer : ChunkBuffer)
    (env : KermitEnv) :
    Avoids p (checkedSend signedChar file buffer env) ↔
      ¬ ComesToFailedRead signedChar file env := by
  unfold checkedSend ComesToFailedRead
  cases env.fSize with
  | none =>
    refine iff_of_true ?_ (by simp)
    exact Avoids.bind _ _ _ (Avoids.emit _ _ (hp.link _)) fun _ => Avoids.pure _ _
  | some size =>
    simp only [Run.emit_bind, Run.after_after]
    rw [avoids_after_iff]
    by_cases hopen : env.fOpen = fileOk
    · have hloop := checkedTransfer_avoids_iff signedChar hp env.reads 0 size file buffer
        env.attempts
      rw [if_neg (not_not.mpr hopen), avoids_bind_iff, show (0 : UInt8) = sequenceAt 0 from rfl,
        hloop]
      simp only [Option.some.injEq, hopen, true_and, exists_and_left, exists_eq_left']
      refine ⟨fun h => h.2.1, fun h => ⟨by simp [hp.link], h, fun exit _ => ?_⟩⟩
      cases exit with
      | some ret => exact Avoids.pure _ _
      | none =>
        apply Avoids.bind _ _ _ (avoids_onLink hp _)
        intro _
        exact Avoids.after _ _ _ (by simp [hp.link]) (Avoids.pure _ _)
    · rw [if_pos hopen]
      exact iff_of_true ⟨by simp [hp.link], Avoids.pure _ _⟩ (by simp [hopen])

end Bounds

/-! ### Failed reads -/

/-- The packet function is called with at most the size asked for, which is at most
MAX_CHUNK, and with an allocation that does not wrap; it stores within its allocation
and reads within the array; and after a failed f_read the run does not return 0. -/
structure ReadsSafely (x : Send ℤ) : Prop where
  encodes : ∀ requested size, .encode requested size ∈ x.log → InBounds requested size
  stores : x.status ≠ .undefined
  failed : ∀ requested, .fReadFailed requested ∈ x.log → x.status ≠ .done 0

def FailsRead : SendCall → Prop
  | .fReadFailed _ => True
  | _ => False

def OutOfBounds : SendCall → Prop
  | .encode requested size => ¬ InBounds requested size
  | _ => False

theorem failsRead_tells : TellsFailedRead FailsRead where
  link _ := id
  encode _ _ _ := id
  failed _ _ := Or.inl trivial

theorem outOfBounds_tells : TellsFailedRead OutOfBounds where
  link _ := id
  encode _ _ h := not_not.mpr h
  failed requested hmax := by
    apply Or.inr
    intro h
    have hle := h.1
    have hbig : (0xFFFFFFFF : UInt32).toNat = 4294967295 := rfl
    have hchunk : maxChunk = 100 := rfl
    omega

/-- Undefined behaviour comes with a failed f_read. -/
theorem checkedSend_defined (file : List UInt8) (buffer : ChunkBuffer) (env : KermitEnv)
    (h : ¬ ComesToFailedRead signedChar file env) :
    (checkedSend signedChar file buffer env).status ≠ .undefined := by
  intro hundef
  rw [← erase_status, erase_checkedSend, kSendData_undefined_iff] at hundef
  obtain ⟨size, a, unused, hsize, hopen, hreach, _⟩ := hundef
  exact h ⟨size, a :: unused, hsize, hopen, hreach⟩

/-- No read or store is out of bounds, and no failed read ends in 0, exactly if the
sender does not come to an f_read that fails. -/
theorem reads_safely_iff (file : List UInt8) (buffer : ChunkBuffer) (env : KermitEnv) :
    ReadsSafely (checkedSend signedChar file buffer env) ↔
      ¬ ComesToFailedRead signedChar file env := by
  rw [← checkedSend_avoids_iff signedChar outOfBounds_tells file buffer env]
  constructor
  · intro h c hc hout
    cases c with
    | encode requested size => exact hout (h.encodes requested size hc)
    | link call => exact hout
    | fReadFailed requested => exact hout
  · intro h
    have hnot := (checkedSend_avoids_iff signedChar outOfBounds_tells file buffer env).mp h
    have hreads := (checkedSend_avoids_iff signedChar failsRead_tells file buffer env).mpr hnot
    refine ⟨fun requested size hc => not_not.mp (h _ hc),
      checkedSend_defined signedChar file buffer env hnot, fun requested hc => ?_⟩
    exact absurd trivial (hreads _ hc)

/-- A file of one byte whose f_read fails. -/
def failedReadEnv : KermitEnv where
  fSize := some 1
  fOpen := fileOk
  reads := [none]
  attempts := [⟨true, 0, 0, []⟩]
  etxRet := 1
  fClose := 0

theorem failed_read_encoded :
    ¬ ∀ signedChar file buffer env, ReadsSafely (checkedSend signedChar file buffer env) := by
  intro h
  have hsafe := h false [0] ⟨List.replicate maxChunk 0, List.length_replicate⟩ failedReadEnv
  have hin := hsafe.encodes 1 0xFFFFFFFF (by decide)
  exact absurd hin.1 (by decide)

end OmapBootUtils.CheckedSender
