import OmapBootUtils.KermitTransfer

/-!
What a run of the ukermit sender does, round by round. A round is one f_read
and the transmissions of its chunk; every round but the last ends with a good
acknowledgement. The retry loop and the file loop are each described once, and
the results about whole transfers are read off these descriptions.
-/
namespace OmapBootUtils.KermitRounds

open ScriptedRun LinkCalls KermitPacket KermitTransfer

/-- The sequence number of chunk `k`. -/
def sequenceAt (k : ℕ) : UInt8 := UInt8.ofNat (k % 128)

theorem sequenceAt_toNat (k : ℕ) : (sequenceAt k).toNat = k % 128 := by
  unfold sequenceAt
  rw [UInt8.toNat_ofNat']
  omega

theorem nextSequence_sequenceAt (k : ℕ) : nextSequence (sequenceAt k) = sequenceAt (k + 1) := by
  have hwrap : ∀ n, n < 128 → nextSequence (UInt8.ofNat n) = UInt8.ofNat ((n + 1) % 128) := by
    decide +kernel
  have hmod : (k + 1) % 128 = (k % 128 + 1) % 128 := by omega
  unfold sequenceAt
  rw [hwrap (k % 128) (Nat.mod_lt k (by omega)), hmod]

/-- The calls of one attempt: header, body, and the read of the reply. -/
def exchangeCalls (signedChar : Bool) (buffer : List UInt8) (sequence : UInt8)
    (a : Attempt) : List LinkCall :=
  [.sWrite (packetSmall signedChar buffer sequence).1 a.headerRet,
    .sWrite (packetSmall signedChar buffer sequence).2 a.bodyRet,
    .sRead kermitAckSize (a.reply.take kermitAckSize)]

/-! ### The retry loop -/

section Retry
variable (signedChar : Bool) (buffer : List UInt8) (sequence : UInt8)

theorem retryLoop_calloc_failed (retry : ℕ) (a : Attempt) (attempts : List Attempt)
    (ha : a.callocOk = false) :
    retryLoop signedChar buffer sequence retry (a :: attempts) = pure (.returned (-1)) := by
  have hpacket : (smallBuild signedChar).packet buffer sequence a = pure (-1) := by
    simp [smallBuild, kSendDataPacketSmall, ha]
  exact Build.retryLoop_returned _ buffer sequence retry a attempts hpacket

/-- One attempt: the packet goes out, the reply is read and classified. -/
theorem retryLoop_cons (retry : ℕ) (a : Attempt) (attempts : List Attempt)
    (ha : a.callocOk = true) (ret : ℤ)
    (hret : ackResult signedChar sequence.toNat (KermitAck.ofBytes a.reply) = ret) :
    retryLoop signedChar buffer sequence retry (a :: attempts) =
      Run.after (exchangeCalls signedChar buffer sequence a)
        (if ret < 0 then pure (.returned ret)
        else if ret = ackType.toNat then pure (.left retry attempts)
        else if retry + 1 < retryMax then
          retryLoop signedChar buffer sequence (retry + 1) attempts
        else pure (.left (retry + 1) attempts)) := by
  have hpacket : (smallBuild signedChar).packet buffer sequence a =
      Run.after [.sWrite (packetSmall signedChar buffer sequence).1 a.headerRet,
        .sWrite (packetSmall signedChar buffer sequence).2 a.bodyRet] (pure 0) := by
    simp [smallBuild, kSendDataPacketSmall, ha, s1Sendpacket]
  exact Build.retryLoop_attempt _ buffer sequence retry a attempts _ hpacket ret hret

/-- The loop ends with an acknowledged chunk. -/
structure Acked (retry : ℕ) (attempts failed : List Attempt) (a : Attempt)
    (rest : List Attempt) : Prop where
  split : attempts = failed ++ a :: rest
  tries : retry + failed.length < retryMax
  failed_bad : ∀ f ∈ failed, ¬ GoodAck sequence.toNat f.reply
  acked_good : GoodAck sequence.toNat a.reply
  run : retryLoop signedChar buffer sequence retry attempts =
    Run.after ((failed ++ [a]).flatMap (exchangeCalls signedChar buffer sequence))
      (pure (.left (retry + failed.length) rest))

/-- The loop ends, or is blocked, without a good acknowledgement. -/
structure Unacked (retry : ℕ) (attempts failed : List Attempt) : Prop where
  isPrefix : failed <+: attempts
  tries : retry + failed.length ≤ retryMax
  failed_bad : ∀ f ∈ failed, ¬ GoodAck sequence.toNat f.reply
  log : (retryLoop signedChar buffer sequence retry attempts).log =
    failed.flatMap (exchangeCalls signedChar buffer sequence)
  status : ((retryLoop signedChar buffer sequence retry attempts).status = .waiting ∧
      retry + attempts.length < retryMax) ∨
    (∃ ret, ret < 0 ∧
      (retryLoop signedChar buffer sequence retry attempts).status = .done (.returned ret)) ∨
    ∃ rest, (retryLoop signedChar buffer sequence retry attempts).status =
      .done (.left retryMax rest)

theorem retryLoop_good (retry : ℕ) (a : Attempt) (attempts : List Attempt)
    (ha : a.callocOk = true) (hgood : GoodAck sequence.toNat a.reply)
    (hretry : retry < retryMax) :
    Acked signedChar buffer sequence retry (a :: attempts) [] a attempts where
  split := rfl
  tries := by simpa using hretry
  failed_bad := by simp
  acked_good := hgood
  run := by
    have hret := (ackResult_eq_ack_iff signedChar sequence.toNat a.reply).mpr hgood
    rw [retryLoop_cons signedChar buffer sequence retry a attempts ha _ hret,
      if_neg (by decide), if_pos rfl]
    simp

/-- The retry loop, for every sequence of attempts. -/
theorem retryLoop_cases (attempts : List Attempt) (retry : ℕ) (hretry : retry < retryMax) :
    (∃ failed a rest, Acked signedChar buffer sequence retry attempts failed a rest) ∨
      ∃ failed, Unacked signedChar buffer sequence retry attempts failed := by
  induction attempts generalizing retry with
  | nil =>
    right
    exact ⟨[], List.nil_prefix, by simpa using hretry.le, by simp, rfl,
      Or.inl ⟨rfl, by simpa using hretry⟩⟩
  | cons a attempts ih =>
    cases ha : a.callocOk with
    | false =>
      right
      have hrun := retryLoop_calloc_failed signedChar buffer sequence retry a attempts ha
      refine ⟨[], List.nil_prefix, by simpa using hretry.le, by simp, by rw [hrun]; rfl, ?_⟩
      exact Or.inr (Or.inl ⟨-1, by omega, by rw [hrun]; rfl⟩)
    | true =>
      by_cases hgood : GoodAck sequence.toNat a.reply
      · left
        exact ⟨[], a, attempts, retryLoop_good signedChar buffer sequence retry a attempts ha
          hgood hretry⟩
      · have hrun := retryLoop_cons signedChar buffer sequence retry a attempts ha _ rfl
        have hnack : ackResult signedChar sequence.toNat (KermitAck.ofBytes a.reply) ≠
            ackType.toNat :=
          fun h => hgood ((ackResult_eq_ack_iff signedChar sequence.toNat a.reply).mp h)
        have hbad : ∀ f ∈ [a], ¬ GoodAck sequence.toNat f.reply := by simpa using hgood
        by_cases hneg : ackResult signedChar sequence.toNat (KermitAck.ofBytes a.reply) < 0
        · right
          rw [if_pos hneg] at hrun
          refine ⟨[a], ⟨attempts, rfl⟩, by simpa using Nat.succ_le_of_lt hretry, hbad,
            by simp [hrun], ?_⟩
          exact Or.inr (Or.inl ⟨_, hneg, by rw [hrun]; rfl⟩)
        · rw [if_neg hneg, if_neg hnack] at hrun
          by_cases hmore : retry + 1 < retryMax
          · rw [if_pos hmore] at hrun
            rcases ih (retry + 1) hmore with ⟨failed, b, rest, h⟩ | ⟨failed, h⟩
            · left
              refine ⟨a :: failed, b, rest, by simp [h.split], ?_, ?_, h.acked_good, ?_⟩
              · have := h.tries
                simp only [List.length_cons]
                omega
              · simpa using ⟨hgood, h.failed_bad⟩
              · rw [hrun, h.run]
                simp [Nat.add_assoc, Nat.add_comm 1]
            · right
              refine ⟨a :: failed, ?_, ?_, ?_, ?_, ?_⟩
              · simpa using h.isPrefix
              · have := h.tries
                simp only [List.length_cons]
                omega
              · simpa using ⟨hgood, h.failed_bad⟩
              · rw [hrun]
                simp [h.log]
              · rw [hrun, Run.after_status, List.length_cons]
                have := h.status
                rwa [show retry + (attempts.length + 1) = retry + 1 + attempts.length by omega]
          · right
            rw [if_neg hmore] at hrun
            have hlast : retry + 1 = retryMax := by omega
            refine ⟨[a], ⟨attempts, rfl⟩, by simpa using hlast.le, hbad, by simp [hrun], ?_⟩
            exact Or.inr (Or.inr ⟨attempts, by rw [hrun, hlast]; rfl⟩)

end Retry

/-! ### The file loop -/

/-- One f_read, the rejected attempts and the acknowledged one. -/
structure Round where
  requested : ℕ
  chunk : List UInt8
  failed : List Attempt
  acked : Attempt

/-- Every attempt but the last was answered badly, and there were at most four. -/
structure Round.Good (k : ℕ) (r : Round) : Prop where
  chunk_le : r.chunk.length ≤ maxChunk
  tries : r.failed.length < retryMax
  failed_bad : ∀ f ∈ r.failed, ¬ GoodAck (k % 128) f.reply
  acked_good : GoodAck (k % 128) r.acked.reply

def Round.calls (signedChar : Bool) (k : ℕ) (r : Round) : List LinkCall :=
  .fRead r.requested r.chunk ::
    (r.failed ++ [r.acked]).flatMap (exchangeCalls signedChar r.chunk (sequenceAt k))

def GoodRounds : ℕ → List Round → Prop
  | _, [] => True
  | k, r :: rest => r.Good k ∧ GoodRounds (k + 1) rest

def roundCalls (signedChar : Bool) : ℕ → List Round → List LinkCall
  | _, [] => []
  | k, r :: rest => r.calls signedChar k ++ roundCalls signedChar (k + 1) rest

def chunksOf (rounds : List Round) : List UInt8 := rounds.flatMap Round.chunk

/-- The calls of a round that is blocked or given up. -/
inductive Unfinished (signedChar : Bool) (k : ℕ) : List LinkCall → Prop
  | unread : Unfinished signedChar k []
  | unacked (requested : ℕ) (chunk : List UInt8) (failed : List Attempt)
      (tries : failed.length ≤ retryMax)
      (failed_bad : ∀ f ∈ failed, ¬ GoodAck (k % 128) f.reply) :
      Unfinished signedChar k (.fRead requested chunk ::
        failed.flatMap (exchangeCalls signedChar chunk (sequenceAt k)))

/-- The loop ends: all chunks are acknowledged and make up `size` bytes. -/
structure Transferred (signedChar : Bool) (k size : ℕ) (rest : List UInt8)
    (x : Link (Option ℤ)) (rounds : List Round) : Prop where
  good : GoodRounds k rounds
  isPrefix : chunksOf rounds <+: rest
  size : (chunksOf rounds).length = size
  log : x.log = roundCalls signedChar k rounds
  status : x.status = .done none

/-- The loop is blocked or left by a return: some byte is not acknowledged. -/
structure Stopped (signedChar : Bool) (k size : ℕ) (rest : List UInt8)
    (x : Link (Option ℤ)) (rounds : List Round) (tail : List LinkCall) : Prop where
  good : GoodRounds k rounds
  isPrefix : chunksOf rounds <+: rest
  size : (chunksOf rounds).length < size
  unfinished : Unfinished signedChar (k + rounds.length) tail
  log : x.log = roundCalls signedChar k rounds ++ tail
  status : ∀ a, x.status = .done a → ∃ ret, ret < 0 ∧ a = some ret

section Transfer
variable (signedChar : Bool)

theorem transferLoop_zero (reads : List Outcome) (sequence : UInt8) (rest : List UInt8)
    (attempts : List Attempt) :
    transferLoop signedChar reads 0 sequence rest attempts = pure none :=
  Build.transferLoop_zero _ reads sequence rest attempts

theorem transferLoop_unread (size : ℕ) (sequence : UInt8) (rest : List UInt8)
    (attempts : List Attempt) (hsize : size ≠ 0) :
    transferLoop signedChar [] size sequence rest attempts = Run.block :=
  Build.transferLoop_unread _ size sequence rest attempts hsize

/-- The bytes f_read returns for a chunk. -/
def readChunk (size n : ℕ) (rest : List UInt8) : List UInt8 :=
  rest.take (min n (if size > maxChunk then maxChunk else size))

theorem readChunk_length_le (size n : ℕ) (rest : List UInt8) :
    (readChunk size n rest).length ≤ size :=
  ((smallBuild true).chunk_length_le size n rest).1

theorem readChunk_length_le_maxChunk (size n : ℕ) (rest : List UInt8) :
    (readChunk size n rest).length ≤ maxChunk :=
  ((smallBuild true).chunk_length_le size n rest).2

theorem readChunk_length_pos (n : ℕ) (rest : List UInt8) (hn : 1 ≤ n)
    (hrest : rest.length ≠ 0) : 1 ≤ (readChunk rest.length n rest).length := by
  have hmax : 1 ≤ maxChunk := by decide
  unfold readChunk
  rw [List.length_take]
  split <;> omega

theorem transferLoop_cons (n : ℕ) (reads : List Outcome) (size : ℕ) (sequence : UInt8)
    (rest : List UInt8) (attempts : List Attempt) (hsize : size ≠ 0) :
    transferLoop signedChar (some n :: reads) size sequence rest attempts =
      Run.after [.fRead (if size > maxChunk then maxChunk else size) (readChunk size n rest)]
        (retryLoop signedChar (readChunk size n rest) sequence 0 attempts >>= fun x =>
          match x with
          | .returned ret => pure (some ret)
          | .left retry attempts =>
              if retry = retryMax then pure (some (-1)) else
              transferLoop signedChar reads (size - (readChunk size n rest).length)
                (nextSequence sequence) (rest.drop (readChunk size n rest).length) attempts) :=
  Build.transferLoop_cons _ n reads size sequence rest attempts hsize

/-- After a chunk that is acknowledged the loop goes on with the next one. -/
theorem transferLoop_acked {n k size : ℕ} {reads : List Outcome} {rest : List UInt8}
    {attempts failed left : List Attempt} {a : Attempt} (hsize : size ≠ 0)
    (h : Acked signedChar (readChunk size n rest) (sequenceAt k) 0 attempts failed a left) :
    transferLoop signedChar (some n :: reads) size (sequenceAt k) rest attempts =
      Run.after (.fRead (if size > maxChunk then maxChunk else size) (readChunk size n rest) ::
          (failed ++ [a]).flatMap
            (exchangeCalls signedChar (readChunk size n rest) (sequenceAt k)))
        (transferLoop signedChar reads (size - (readChunk size n rest).length)
          (sequenceAt (k + 1)) (rest.drop (readChunk size n rest).length) left) := by
  have htries := h.tries
  have hretry : ¬ 0 + failed.length = retryMax := by omega
  rw [transferLoop_cons signedChar n reads size (sequenceAt k) rest attempts hsize, h.run,
    Run.after_bind, Run.pure_bind, Run.after_after, List.singleton_append]
  simp only [hretry, if_false, nextSequence_sequenceAt]

/-- A failed f_read ends the loop without a call of the link. -/
theorem failedChunk_log (attempts : List Attempt) : (failedChunk attempts).log = [] := by
  rcases attempts with _ | ⟨a, attempts⟩
  · rfl
  · rw [failedChunk]
    split <;> rfl

theorem failedChunk_negative (attempts : List Attempt) (a : Option ℤ)
    (h : (failedChunk attempts).status = .done a) : ∃ ret, ret < 0 ∧ a = some ret := by
  rcases attempts with _ | ⟨attempt, attempts⟩
  · simp [failedChunk] at h
  · rw [failedChunk] at h
    split at h
    · simp at h
    · exact ⟨-1, by omega, by simpa using h.symm⟩

theorem transferLoop_failed (reads : List Outcome) (size : ℕ) (sequence : UInt8)
    (rest : List UInt8) (attempts : List Attempt) (hsize : size ≠ 0) :
    transferLoop signedChar (none :: reads) size sequence rest attempts =
      failedChunk attempts :=
  Build.transferLoop_failed _ reads size sequence rest attempts hsize

theorem Transferred.cons {k size : ℕ} {rest : List UInt8} {x : Link (Option ℤ)}
    {rounds : List Round} (r : Round) (hr : r.Good k) (hchunk : r.chunk <+: rest)
    (hsize : r.chunk.length ≤ size)
    (h : Transferred signedChar (k + 1) (size - r.chunk.length) (rest.drop r.chunk.length)
      x rounds) :
    Transferred signedChar k size rest (Run.after (r.calls signedChar k) x) (r :: rounds) where
  good := ⟨hr, h.good⟩
  isPrefix := by
    rw [← List.prefix_iff_eq_append.mp hchunk]
    exact (List.prefix_append_right_inj r.chunk).mpr h.isPrefix
  size := by
    have := h.size
    simp only [chunksOf, List.flatMap_cons, List.length_append] at this ⊢
    omega
  log := by rw [Run.after_log, h.log, roundCalls]
  status := h.status

theorem Stopped.cons {k size : ℕ} {rest : List UInt8} {x : Link (Option ℤ)}
    {rounds : List Round} {tail : List LinkCall} (r : Round) (hr : r.Good k)
    (hchunk : r.chunk <+: rest) (hsize : r.chunk.length ≤ size)
    (h : Stopped signedChar (k + 1) (size - r.chunk.length) (rest.drop r.chunk.length)
      x rounds tail) :
    Stopped signedChar k size rest (Run.after (r.calls signedChar k) x) (r :: rounds) tail where
  good := ⟨hr, h.good⟩
  isPrefix := by
    rw [← List.prefix_iff_eq_append.mp hchunk]
    exact (List.prefix_append_right_inj r.chunk).mpr h.isPrefix
  size := by
    have := h.size
    simp only [chunksOf, List.flatMap_cons, List.length_append] at this ⊢
    omega
  unfinished := by
    have := h.unfinished
    rwa [show k + 1 + rounds.length = k + (r :: rounds).length by
      simp only [List.length_cons]; omega] at this
  log := by rw [Run.after_log, h.log, roundCalls, List.append_assoc]
  status := h.status

/-- A loop that is blocked or left before any round is complete. -/
theorem Stopped.first {k size : ℕ} (rest : List UInt8) {x : Link (Option ℤ)}
    {tail : List LinkCall} (hsize : 0 < size) (htail : Unfinished signedChar k tail)
    (hlog : x.log = tail) (hstatus : ∀ a, x.status = .done a → ∃ ret, ret < 0 ∧ a = some ret) :
    Stopped signedChar k size rest x [] tail where
  good := trivial
  isPrefix := List.nil_prefix
  size := by simpa [chunksOf] using hsize
  unfinished := by simpa using htail
  log := by simpa [roundCalls] using hlog
  status := hstatus

/-- A chunk that is not acknowledged stops the loop. -/
theorem transferLoop_unacked {n k size : ℕ} {reads : List Outcome} {rest : List UInt8}
    {attempts failed : List Attempt} (hsize : size ≠ 0)
    (h : Unacked signedChar (readChunk size n rest) (sequenceAt k) 0 attempts failed) :
    Stopped signedChar k size rest
      (transferLoop signedChar (some n :: reads) size (sequenceAt k) rest attempts) []
      (.fRead (if size > maxChunk then maxChunk else size) (readChunk size n rest) ::
        failed.flatMap (exchangeCalls signedChar (readChunk size n rest) (sequenceAt k))) := by
  have htries := h.tries
  have hbad := h.failed_bad
  rw [sequenceAt_toNat] at hbad
  rw [transferLoop_cons signedChar n reads size (sequenceAt k) rest attempts hsize]
  refine Stopped.first signedChar rest (by omega)
    (.unacked _ _ failed (by simpa using htries) hbad) ?_ ?_
  · rw [Run.after_log, ← h.log]
    rcases h.status with ⟨hs, _⟩ | ⟨ret, _, hs⟩ | ⟨left, hs⟩ <;> simp [bind, hs]
  · intro b hb
    rw [Run.after_status, Run.bind_done_iff] at hb
    obtain ⟨exit, hexit, hret⟩ := hb
    rcases h.status with ⟨hs, _⟩ | ⟨ret, hneg, hs⟩ | ⟨left, hs⟩
    · rw [hs] at hexit
      cases hexit
    · rw [hs] at hexit
      cases hexit
      cases hret
      exact ⟨ret, hneg, rfl⟩
    · rw [hs] at hexit
      cases hexit
      simp only [if_true] at hret
      cases hret
      exact ⟨-1, by omega, rfl⟩

/-- The file loop, for every sequence of reads and attempts. -/
theorem transferLoop_cases (reads : List Outcome) (k size : ℕ) (rest : List UInt8)
    (attempts : List Attempt) :
    (∃ rounds, Transferred signedChar k size rest
      (transferLoop signedChar reads size (sequenceAt k) rest attempts) rounds) ∨
    ∃ rounds tail, Stopped signedChar k size rest
      (transferLoop signedChar reads size (sequenceAt k) rest attempts) rounds tail := by
  induction reads generalizing k size rest attempts with
  | nil =>
    by_cases hsize : size = 0
    · subst hsize
      left
      rw [transferLoop_zero]
      exact ⟨[], trivial, List.nil_prefix, rfl, rfl, rfl⟩
    · right
      refine ⟨[], [], Stopped.first signedChar rest (by omega) .unread ?_ ?_⟩
      · rw [transferLoop_unread signedChar size _ rest attempts hsize]
        rfl
      · simp [transferLoop_unread signedChar size _ rest attempts hsize]
  | cons outcome reads ih =>
    by_cases hsize : size = 0
    · subst hsize
      left
      rw [transferLoop_zero]
      exact ⟨[], trivial, List.nil_prefix, rfl, rfl, rfl⟩
    · cases outcome with
      | none =>
        right
        rw [transferLoop_failed signedChar reads size (sequenceAt k) rest attempts hsize]
        exact ⟨[], [], Stopped.first signedChar rest (by omega) .unread
          (failedChunk_log attempts) (failedChunk_negative attempts)⟩
      | some n =>
        rcases retryLoop_cases signedChar (readChunk size n rest) (sequenceAt k) attempts 0
            (by decide) with ⟨failed, a, left, h⟩ | ⟨failed, h⟩
        · have htries := h.tries
          have hbad := h.failed_bad
          have hgood := h.acked_good
          rw [sequenceAt_toNat] at hbad hgood
          let r : Round :=
            ⟨if size > maxChunk then maxChunk else size, readChunk size n rest, failed, a⟩
          have hr : r.Good k := ⟨readChunk_length_le_maxChunk size n rest,
            by simpa using htries, hbad, hgood⟩
          have hchunk : r.chunk <+: rest := List.take_prefix _ _
          have hle : r.chunk.length ≤ size := readChunk_length_le size n rest
          rw [transferLoop_acked signedChar hsize h]
          rcases ih (k + 1) (size - r.chunk.length) (rest.drop r.chunk.length) left with
            ⟨rounds, ht⟩ | ⟨rounds, tail, hs⟩
          · left
            exact ⟨r :: rounds, ht.cons signedChar r hr hchunk hle⟩
          · right
            exact ⟨r :: rounds, tail, hs.cons signedChar r hr hchunk hle⟩
        · right
          exact ⟨[], _, transferLoop_unacked signedChar hsize h⟩

/-! ### Whole runs -/

theorem kSendData_not_open (file : List UInt8) (env : KermitEnv) (size : ℕ)
    (hsize : env.fSize = some size) (hopen : env.fOpen ≠ fileOk) :
    kSendData signedChar file env = Run.after [.fSize size, .fOpen env.fOpen] (pure (-1)) :=
  Build.kSendData_not_open _ file env size hsize hopen

theorem afterLoop_status (env : KermitEnv) (exit : Option ℤ) :
    (afterLoop env exit).status = .done (exit.getD 0) := by
  cases exit <;> rfl

/-- What k_send_data does with the file open. -/
theorem kSendData_opened (file : List UInt8) (env : KermitEnv) (size : ℕ)
    (hsize : env.fSize = some size) (hopen : env.fOpen = fileOk) :
    kSendData signedChar file env = Run.after [.fSize size, .fOpen fileOk]
      (transferLoop signedChar env.reads size (sequenceAt 0) file env.attempts >>=
        afterLoop env) :=
  Build.kSendData_opened _ file env size hsize hopen

/-- The record of a run of k_send_data on an opened file, by how it ends. -/
theorem kSendData_cases (file : List UInt8) (env : KermitEnv) (size : ℕ)
    (hsize : env.fSize = some size) (hopen : env.fOpen = fileOk) :
    (∃ rounds, GoodRounds 0 rounds ∧ chunksOf rounds <+: file ∧
      (chunksOf rounds).length = size ∧
      (kSendData signedChar file env).log =
        [.fSize size, .fOpen env.fOpen] ++ (roundCalls signedChar 0 rounds ++
          [.sWrite [etxChar] env.etxRet, .fClose env.fClose]) ∧
      (kSendData signedChar file env).status = .done 0) ∨
    ∃ rounds tail, GoodRounds 0 rounds ∧ chunksOf rounds <+: file ∧
      (chunksOf rounds).length < size ∧ Unfinished signedChar (0 + rounds.length) tail ∧
      (kSendData signedChar file env).log =
        [.fSize size, .fOpen env.fOpen] ++ (roundCalls signedChar 0 rounds ++ tail) ∧
      (kSendData signedChar file env).status ≠ .done 0 := by
  rw [kSendData_opened signedChar file env size hsize hopen, hopen]
  rcases transferLoop_cases signedChar env.reads 0 size file env.attempts with
    ⟨rounds, ht⟩ | ⟨rounds, tail, hs⟩
  · left
    refine ⟨rounds, ht.good, ht.isPrefix, ht.size, ?_, ?_⟩
    · rw [Run.bind_of_done _ _ none ht.status, ht.log]
      simp [afterLoop]
    · rw [Run.bind_of_done _ _ none ht.status]
      exact afterLoop_status env none
  · right
    refine ⟨rounds, tail, hs.good, hs.isPrefix, hs.size, hs.unfinished, ?_, ?_⟩
    · cases hstatus : (transferLoop signedChar env.reads size (sequenceAt 0) file
          env.attempts).status with
      | waiting => simp [bind, hstatus, hs.log]
      | undefined => simp [bind, hstatus, hs.log]
      | done a =>
        obtain ⟨ret, _, rfl⟩ := hs.status a hstatus
        rw [Run.bind_of_done _ _ _ hstatus, hs.log]
        simp [afterLoop]
    · intro hdone
      obtain ⟨a, ha, hret⟩ := (Run.bind_done_iff _ _ _).mp hdone
      obtain ⟨ret, hneg, rfl⟩ := hs.status a ha
      rw [afterLoop_status, Status.done.injEq, Option.getD_some] at hret
      omega

end Transfer

end OmapBootUtils.KermitRounds
