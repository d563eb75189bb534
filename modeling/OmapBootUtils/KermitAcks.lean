import OmapBootUtils.KermitRounds

/-!
Acknowledgement safety of ukermit, stated on the record of calls. The record is
cut at its f_read calls: what follows the k-th f_read belongs to chunk k. A
chunk is left behind only after a good reply to it, is sent at most four times,
and ETX goes out exactly in the runs that acknowledge the whole file.
-/
namespace OmapBootUtils.KermitAcks

open ScriptedRun LinkCalls KermitPacket KermitTransfer KermitRounds

/-- The calls before the first f_read, and for each f_read its chunk and the
calls up to the next one. -/
def splitRounds : List LinkCall → List LinkCall × List (List UInt8 × List LinkCall)
  | [] => ([], [])
  | .fRead _ chunk :: log => ([], (chunk, (splitRounds log).1) :: (splitRounds log).2)
  | call :: log => (call :: (splitRounds log).1, (splitRounds log).2)

def chunkRounds (log : List LinkCall) : List (List UInt8 × List LinkCall) :=
  (splitRounds log).2

/-- A packet header, the write that begins with START. -/
def isHeader : LinkCall → Bool
  | .sWrite (b :: _) _ => b == startChar
  | _ => false

def transmissions (calls : List LinkCall) : ℕ := calls.countP isHeader

/-- The calls of chunk `k` transmit nothing but its packet, at most four times;
the only other thing written is the completion character. -/
structure Carries (signedChar : Bool) (k : ℕ) (round : List UInt8 × List LinkCall) : Prop where
  packets : ∀ data ret, .sWrite data ret ∈ round.2 →
    data = (packetSmall signedChar round.1 (sequenceAt k)).1 ∨
      data = (packetSmall signedChar round.1 (sequenceAt k)).2 ∨ data = [etxChar]
  tries : transmissions round.2 ≤ retryMax

/-- A transmission of chunk `k` was answered by a good acknowledgement. -/
def Acknowledged (signedChar : Bool) (k : ℕ) (round : List UInt8 × List LinkCall) : Prop :=
  ∃ before later headerRet bodyRet reply,
    round.2 = before ++
      [.sWrite (packetSmall signedChar round.1 (sequenceAt k)).1 headerRet,
        .sWrite (packetSmall signedChar round.1 (sequenceAt k)).2 bodyRet,
        .sRead kermitAckSize reply] ++ later ∧
    GoodAck (k % 128) reply

/-! ### Cutting the record -/

def isFRead : LinkCall → Bool
  | .fRead _ _ => true
  | _ => false

theorem splitRounds_append (calls log : List LinkCall) (h : ∀ c ∈ calls, isFRead c = false) :
    splitRounds (calls ++ log) = (calls ++ (splitRounds log).1, (splitRounds log).2) := by
  induction calls with
  | nil => rfl
  | cons c calls ih =>
    have hc : isFRead c = false := h c (by simp)
    have htail := ih fun d hd => h d (by simp [hd])
    cases c with
    | fRead requested chunk => simp [isFRead] at hc
    | _ => simp only [List.cons_append, splitRounds, htail]

section Exchange
variable (signedChar : Bool) (chunk : List UInt8) (sequence : UInt8)

theorem exchanges_not_fRead (attempts : List Attempt) :
    ∀ c ∈ attempts.flatMap (exchangeCalls signedChar chunk sequence), isFRead c = false := by
  intro c hc
  obtain ⟨a, _, hca⟩ := List.mem_flatMap.mp hc
  simp only [exchangeCalls, List.mem_cons, List.not_mem_nil, or_false] at hca
  rcases hca with rfl | rfl | rfl <;> rfl

theorem isHeader_header (ret : ℤ) :
    isHeader (.sWrite (packetSmall signedChar chunk sequence).1 ret) = true := by
  rw [packetSmall_eq]
  simp [isHeader]

theorem isHeader_body (ret : ℤ) :
    isHeader (.sWrite (packetSmall signedChar chunk sequence).2 ret) = false := by
  rw [packetSmall_eq]
  have hspace : ∀ b : UInt8, 0x20 ≤ b → (b == startChar) = false := by
    intro b hb
    rw [beq_eq_false_iff_ne]
    rintro rfl
    exact absurd hb (by decide)
  cases he : escape chunk with
  | nil => exact hspace _ (UInt8.le_iff_toNat_le.mpr (checkChar_bounds _).1)
  | cons b rest => exact hspace b (space_le_escape chunk b (by simp [he]))

theorem transmissions_exchanges (attempts : List Attempt) :
    transmissions (attempts.flatMap (exchangeCalls signedChar chunk sequence)) =
      attempts.length := by
  unfold transmissions
  induction attempts with
  | nil => rfl
  | cons a attempts ih =>
    rw [List.flatMap_cons, List.countP_append, ih, exchangeCalls]
    simp only [List.countP_cons, isHeader_header, isHeader_body, List.countP_nil,
      List.length_cons]
    simp [isHeader, Nat.add_comm]

theorem mem_exchanges_sWrite (attempts : List Attempt) (data : List UInt8) (ret : ℤ)
    (h : .sWrite data ret ∈ attempts.flatMap (exchangeCalls signedChar chunk sequence)) :
    data = (packetSmall signedChar chunk sequence).1 ∨
      data = (packetSmall signedChar chunk sequence).2 := by
  obtain ⟨a, _, ha⟩ := List.mem_flatMap.mp h
  simp only [exchangeCalls, List.mem_cons, List.not_mem_nil, or_false, LinkCall.sWrite.injEq,
    reduceCtorEq] at ha
  rcases ha with ⟨h, _⟩ | ⟨h, _⟩
  · exact Or.inl h
  · exact Or.inr h

end Exchange

/-- Calls after the last round that transmit no packet. -/
structure Quiet (calls : List LinkCall) : Prop where
  packets : ∀ data ret, .sWrite data ret ∈ calls → data = [etxChar]
  tries : transmissions calls = 0

theorem goodAck_take (seqNum : ℕ) (reply : List UInt8) :
    GoodAck seqNum (reply.take kermitAckSize) ↔ GoodAck seqNum reply := by
  have h : KermitAck.ofBytes (reply.take kermitAckSize) = KermitAck.ofBytes reply := by
    simp [KermitAck.ofBytes, kermitAckSize, List.getD_eq_getElem?_getD]
  unfold GoodAck
  rw [h]

variable (signedChar : Bool)

theorem carries_of_good {k : ℕ} {r : Round} (hr : r.Good k) (quiet : List LinkCall)
    (hq : Quiet quiet) :
    Carries signedChar k (r.chunk,
      (r.failed ++ [r.acked]).flatMap (exchangeCalls signedChar r.chunk (sequenceAt k)) ++
        quiet) where
  packets data ret h := by
    rcases List.mem_append.mp h with h | h
    · rcases mem_exchanges_sWrite signedChar r.chunk (sequenceAt k) _ data ret h with h | h
      · exact Or.inl h
      · exact Or.inr (Or.inl h)
    · exact Or.inr (Or.inr (hq.packets data ret h))
  tries := by
    have htries := hr.tries
    have hquiet := hq.tries
    have hsent := transmissions_exchanges signedChar r.chunk (sequenceAt k)
      (r.failed ++ [r.acked])
    simp only [transmissions, List.countP_append, List.length_append, List.length_cons,
      List.length_nil] at hquiet hsent ⊢
    omega

theorem acknowledged_of_good {k : ℕ} {r : Round} (hr : r.Good k) (quiet : List LinkCall) :
    Acknowledged signedChar k (r.chunk,
      (r.failed ++ [r.acked]).flatMap (exchangeCalls signedChar r.chunk (sequenceAt k)) ++
        quiet) := by
  refine ⟨r.failed.flatMap (exchangeCalls signedChar r.chunk (sequenceAt k)), quiet,
    r.acked.headerRet, r.acked.bodyRet, r.acked.reply.take kermitAckSize, ?_,
    (goodAck_take _ _).mpr hr.acked_good⟩
  simp [exchangeCalls]

theorem splitRounds_calls (k : ℕ) (r : Round) (log : List LinkCall) :
    splitRounds (r.calls signedChar k ++ log) =
      ([], (r.chunk, (r.failed ++ [r.acked]).flatMap
        (exchangeCalls signedChar r.chunk (sequenceAt k)) ++ (splitRounds log).1) ::
          (splitRounds log).2) := by
  rw [Round.calls, List.cons_append, splitRounds,
    splitRounds_append _ log (exchanges_not_fRead signedChar r.chunk (sequenceAt k) _)]

theorem chunkRounds_calls (k : ℕ) (r : Round) (log : List LinkCall) :
    chunkRounds (r.calls signedChar k ++ log) =
      (r.chunk, (r.failed ++ [r.acked]).flatMap
        (exchangeCalls signedChar r.chunk (sequenceAt k)) ++ (splitRounds log).1) ::
          chunkRounds log := by
  rw [chunkRounds, splitRounds_calls]
  rfl

/-- What the cut record of complete rounds followed by `log` looks like. -/
structure CutAt (k : ℕ) (rounds : List Round) (log cut : List (List UInt8 × List LinkCall)) :
    Prop where
  length : cut.length = rounds.length + log.length
  chunks : cut.flatMap Prod.fst = chunksOf rounds ++ log.flatMap Prod.fst
  carries : ∀ i round, cut[i]? = some round → Carries signedChar (k + i) round
  acknowledged : ∀ i round, cut[i]? = some round → i < rounds.length →
    Acknowledged signedChar (k + i) round

theorem chunkRounds_roundCalls (k : ℕ) (rounds : List Round) (log : List LinkCall)
    (hgood : GoodRounds k rounds) (hquiet : Quiet (splitRounds log).1)
    (hlog : ∀ i round, (chunkRounds log)[i]? = some round →
      Carries signedChar (k + rounds.length + i) round) :
    Quiet (splitRounds (roundCalls signedChar k rounds ++ log)).1 ∧
      CutAt signedChar k rounds (chunkRounds log)
        (chunkRounds (roundCalls signedChar k rounds ++ log)) := by
  induction rounds generalizing k with
  | nil =>
    refine ⟨hquiet, ?_, ?_, ?_, ?_⟩
    · simp [roundCalls]
    · simp [roundCalls, chunksOf]
    · simpa [roundCalls] using hlog
    · intro i round _ hi
      simp at hi
  | cons r rest ih =>
    obtain ⟨hq, hcut⟩ := ih (k + 1) hgood.2 fun i round h => by
      have := hlog i round h
      rwa [show k + (r :: rest).length + i = k + 1 + rest.length + i by
        simp only [List.length_cons]; omega] at this
    rw [roundCalls, List.append_assoc, splitRounds_calls, chunkRounds_calls]
    refine ⟨⟨by simp, rfl⟩, ?_, ?_, ?_, ?_⟩
    · have := hcut.length
      simp only [List.length_cons] at this ⊢
      omega
    · have := hcut.chunks
      simp only [List.flatMap_cons, chunksOf, List.append_assoc] at this ⊢
      rw [this]
    · intro i round hi
      cases i with
      | zero =>
        cases hi
        exact carries_of_good signedChar hgood.1 _ hq
      | succ i =>
        have := hcut.carries i round hi
        rwa [show k + 1 + i = k + (i + 1) by omega] at this
    · intro i round hi hlt
      cases i with
      | zero =>
        cases hi
        exact acknowledged_of_good signedChar hgood.1 _
      | succ i =>
        have := hcut.acknowledged i round hi (by simpa using hlt)
        rwa [show k + 1 + i = k + (i + 1) by omega] at this

/-- The cut of what follows complete rounds comes after their own cuts. -/
theorem chunkRounds_roundCalls_last (k : ℕ) (rounds : List Round) (log : List LinkCall) (i : ℕ) :
    (chunkRounds (roundCalls signedChar k rounds ++ log))[rounds.length + i]? =
      (chunkRounds log)[i]? := by
  induction rounds generalizing k with
  | nil => simp [roundCalls]
  | cons r rest ih =>
    rw [roundCalls, List.append_assoc, chunkRounds_calls, ← ih (k + 1), List.length_cons,
      show rest.length + 1 + i = (rest.length + i) + 1 by omega, List.getElem?_cons_succ]

/-! ### The unfinished round -/

theorem mem_exchanges_sRead (chunk : List UInt8) (sequence : UInt8) (attempts : List Attempt)
    (reply : List UInt8)
    (h : .sRead kermitAckSize reply ∈
      attempts.flatMap (exchangeCalls signedChar chunk sequence)) :
    ∃ a ∈ attempts, reply = a.reply.take kermitAckSize := by
  obtain ⟨a, ha, hread⟩ := List.mem_flatMap.mp h
  simp only [exchangeCalls, List.mem_cons, List.not_mem_nil, or_false, LinkCall.sRead.injEq,
    reduceCtorEq, true_and, false_or] at hread
  exact ⟨a, ha, hread⟩

theorem etxChar_not_mem_exchanges (chunk : List UInt8) (sequence : UInt8)
    (attempts : List Attempt) (ret : ℤ) :
    .sWrite [etxChar] ret ∉ attempts.flatMap (exchangeCalls signedChar chunk sequence) := by
  intro h
  rcases mem_exchanges_sWrite signedChar chunk sequence attempts _ ret h with h | h
  · rw [packetSmall_eq] at h
    simp at h
  · have := congrArg List.length h
    rw [packetSmall_eq] at this
    simp at this

/-- The rounds cut from an unfinished round: none, or one without a good reply. -/
theorem chunkRounds_unfinished {k : ℕ} {tail : List LinkCall}
    (h : Unfinished signedChar k tail) :
    (splitRounds tail).1 = [] ∧ (chunkRounds tail = [] ∨
      ∃ round, chunkRounds tail = [round] ∧ Carries signedChar k round ∧
        ¬ Acknowledged signedChar k round) := by
  cases h with
  | unread => exact ⟨rfl, Or.inl rfl⟩
  | unacked requested chunk failed tries failed_bad =>
    have hsplit := splitRounds_append (failed.flatMap
      (exchangeCalls signedChar chunk (sequenceAt k))) []
      (exchanges_not_fRead signedChar chunk (sequenceAt k) failed)
    simp only [List.append_nil, splitRounds] at hsplit
    refine ⟨rfl, Or.inr ⟨(chunk, failed.flatMap
      (exchangeCalls signedChar chunk (sequenceAt k))), ?_, ⟨?_, ?_⟩, ?_⟩⟩
    · simp [chunkRounds, splitRounds, hsplit]
    · intro data ret hmem
      rcases mem_exchanges_sWrite signedChar chunk (sequenceAt k) failed data ret hmem with h | h
      · exact Or.inl h
      · exact Or.inr (Or.inl h)
    · rw [transmissions_exchanges]
      exact tries
    · rintro ⟨before, later, headerRet, bodyRet, reply, hcalls, hgood⟩
      obtain ⟨a, ha, rfl⟩ := mem_exchanges_sRead signedChar chunk (sequenceAt k) failed reply
        (by simp only at hcalls; rw [hcalls]; simp)
      exact failed_bad a ha ((goodAck_take _ _).mp hgood)

theorem etxChar_not_mem_roundCalls (k : ℕ) (rounds : List Round) (ret : ℤ) :
    .sWrite [etxChar] ret ∉ roundCalls signedChar k rounds := by
  induction rounds generalizing k with
  | nil => simp [roundCalls]
  | cons r rest ih =>
    intro h
    rcases List.mem_append.mp h with h | h
    · rcases List.mem_cons.mp h with h | h
      · cases h
      · exact etxChar_not_mem_exchanges signedChar r.chunk (sequenceAt k) _ ret h
    · exact ih (k + 1) h

theorem etxChar_not_mem_unfinished {k : ℕ} {tail : List LinkCall}
    (h : Unfinished signedChar k tail) (ret : ℤ) : .sWrite [etxChar] ret ∉ tail := by
  cases h with
  | unread => simp
  | unacked requested chunk failed tries failed_bad =>
    intro h
    rcases List.mem_cons.mp h with h | h
    · cases h
    · exact etxChar_not_mem_exchanges signedChar chunk (sequenceAt k) failed ret h

/-! ### Returning -/

/-- The retry loop uses at most four attempts and ends if it has four. -/
theorem retryLoop_returns (buffer : List UInt8) (sequence : UInt8) (attempts : List Attempt)
    (h : retryMax ≤ attempts.length) :
    ∃ exit, (retryLoop signedChar buffer sequence 0 attempts).status = .done exit ∧
      ∀ retry rest, exit = .left retry rest → retry ≠ retryMax →
        attempts.length ≤ rest.length + retryMax := by
  rcases retryLoop_cases signedChar buffer sequence attempts 0 (by decide) with
    ⟨failed, a, rest, hacked⟩ | ⟨failed, hun⟩
  · refine ⟨_, by rw [hacked.run]; rfl, ?_⟩
    intro retry left heq _
    cases heq
    have htries := hacked.tries
    rw [hacked.split, List.length_append, List.length_cons]
    omega
  · rcases hun.status with ⟨_, hlt⟩ | ⟨ret, _, hs⟩ | ⟨rest, hs⟩
    · omega
    · exact ⟨_, hs, fun retry left heq => by cases heq⟩
    · refine ⟨_, hs, ?_⟩
      intro retry left heq hne
      cases heq
      exact absurd rfl hne

/-- With non-empty reads and replies enough, the file loop ends. -/
theorem transferLoop_returns (reads : List Outcome) (sequence : UInt8) (rest : List UInt8)
    (attempts : List Attempt) (hreads : ∀ o ∈ reads, ∃ n, o = some n ∧ 1 ≤ n)
    (hlen : rest.length ≤ reads.length) (hatt : retryMax * rest.length ≤ attempts.length) :
    ∃ a, (transferLoop signedChar reads rest.length sequence rest attempts).status = .done a := by
  induction reads generalizing sequence rest attempts with
  | nil =>
    have hzero : rest.length = 0 := by simpa using hlen
    rw [hzero, transferLoop_zero]
    exact ⟨none, rfl⟩
  | cons o reads ih =>
    by_cases hzero : rest.length = 0
    · rw [hzero, transferLoop_zero]
      exact ⟨none, rfl⟩
    · obtain ⟨n, rfl, hn⟩ := hreads o (by simp)
      have hchunk := readChunk_length_pos n rest hn hzero
      have hle := readChunk_length_le rest.length n rest
      obtain ⟨exit, hexit, hused⟩ := retryLoop_returns signedChar
        (readChunk rest.length n rest) sequence attempts (by unfold retryMax at *; omega)
      rw [transferLoop_cons signedChar n reads rest.length sequence rest attempts hzero,
        Run.after_status, Run.bind_of_done _ _ exit hexit, Run.after_status]
      cases exit with
      | returned ret => exact ⟨some ret, rfl⟩
      | left retry later =>
        by_cases hmax : retry = retryMax
        · exact ⟨some (-1), by simp [hmax]⟩
        · have hbudget := hused retry later rfl hmax
          have hdrop : (rest.drop (readChunk rest.length n rest).length).length =
              rest.length - (readChunk rest.length n rest).length := List.length_drop
          have hnext := ih (nextSequence sequence)
            (rest.drop (readChunk rest.length n rest).length) later
            (fun o ho => hreads o (by simp [ho]))
            (by rw [hdrop]; simp only [List.length_cons] at hlen; omega)
            (by rw [hdrop]; unfold retryMax at *; omega)
          rw [hdrop] at hnext
          simpa only [hmax, if_false] using hnext

theorem kSendData_returns (file : List UInt8) (env : KermitEnv)
    (hsize : env.fSize = some file.length)
    (hreads : ∀ o ∈ env.reads, ∃ n, o = some n ∧ 1 ≤ n)
    (hlen : file.length ≤ env.reads.length)
    (hatt : retryMax * file.length ≤ env.attempts.length) :
    ∃ ret, (kSendData signedChar file env).status = .done ret := by
  by_cases hopen : env.fOpen = fileOk
  · obtain ⟨a, ha⟩ := transferLoop_returns signedChar env.reads (sequenceAt 0) file env.attempts
      hreads hlen hatt
    rw [kSendData_opened signedChar file env _ hsize hopen, Run.bind_of_done _ _ a ha]
    exact ⟨_, afterLoop_status env a⟩
  · rw [kSendData_not_open signedChar file env file.length hsize hopen]
    exact ⟨-1, rfl⟩

/-! ### Safety -/

/-- The record of a run on an opened file obeys the acknowledgement rules. -/
structure SafeRecord (file : List UInt8) (log : List LinkCall) (status : Status ℤ) : Prop where
  /-- Chunk `k` is sent as its own packet, at most four times, and chunk `k + 1`
  is read only after a good acknowledgement of chunk `k`. -/
  rounds : ∀ k round, (chunkRounds log)[k]? = some round →
    Carries signedChar k round ∧
      (k + 1 < (chunkRounds log).length → Acknowledged signedChar k round)
  /-- The run returns 0 if and only if every chunk of the file is acknowledged. -/
  completed : status = .done 0 ↔ (chunkRounds log).flatMap Prod.fst = file ∧
    ∀ k round, (chunkRounds log)[k]? = some round → Acknowledged signedChar k round
  /-- ETX is sent in exactly those runs. -/
  etx : (∃ ret, .sWrite [etxChar] ret ∈ log) ↔ status = .done 0

variable (file : List UInt8) (env : KermitEnv)

theorem chunkRounds_opening (log : List LinkCall) :
    chunkRounds ([.fSize file.length, .fOpen env.fOpen] ++ log) = chunkRounds log := rfl

theorem safeRecord_complete (rounds : List Round) (hgood : GoodRounds 0 rounds)
    (hfile : chunksOf rounds = file) :
    SafeRecord signedChar file ([.fSize file.length, .fOpen env.fOpen] ++
      (roundCalls signedChar 0 rounds ++ [.sWrite [etxChar] env.etxRet, .fClose env.fClose]))
      (.done 0) := by
  obtain ⟨_, hcut⟩ := chunkRounds_roundCalls signedChar 0 rounds
    [.sWrite [etxChar] env.etxRet, .fClose env.fClose] hgood
    ⟨by simp [splitRounds], rfl⟩ (by simp [chunkRounds, splitRounds])
  have hnone : chunkRounds [.sWrite [etxChar] env.etxRet, .fClose env.fClose] = [] := rfl
  have hchunks := hcut.chunks
  have hcount := hcut.length
  rw [hnone] at hchunks hcount
  have hacked : ∀ k round, (chunkRounds (roundCalls signedChar 0 rounds ++
      [.sWrite [etxChar] env.etxRet, .fClose env.fClose]))[k]? = some round →
      Acknowledged signedChar k round := by
    intro k round hk
    have hlt := (List.getElem?_eq_some_iff.mp hk).1
    simpa using hcut.acknowledged k round hk (by simpa [hcount] using hlt)
  constructor
  · rw [chunkRounds_opening]
    intro k round hk
    exact ⟨by simpa using hcut.carries k round hk, fun _ => hacked k round hk⟩
  · rw [chunkRounds_opening]
    refine ⟨fun _ => ⟨?_, hacked⟩, fun _ => rfl⟩
    simpa [hfile] using hchunks
  · refine ⟨fun _ => rfl, fun _ => ⟨env.etxRet, ?_⟩⟩
    simp

theorem safeRecord_stopped (rounds : List Round) (tail : List LinkCall) (status : Status ℤ)
    (hgood : GoodRounds 0 rounds) (hshort : (chunksOf rounds).length < file.length)
    (htail : Unfinished signedChar (0 + rounds.length) tail) (hstatus : status ≠ .done 0) :
    SafeRecord signedChar file ([.fSize file.length, .fOpen env.fOpen] ++
      (roundCalls signedChar 0 rounds ++ tail)) status := by
  obtain ⟨hquiet, hrounds⟩ := chunkRounds_unfinished signedChar htail
  have hcarries : ∀ i round, (chunkRounds tail)[i]? = some round →
      Carries signedChar (0 + rounds.length + i) round := by
    rcases hrounds with hnone | ⟨round, hone, hcarries, _⟩
    · simp [hnone]
    · intro i other hi
      rw [hone] at hi
      cases i with
      | zero =>
        cases hi
        simpa using hcarries
      | succ i => simp at hi
  obtain ⟨_, hcut⟩ := chunkRounds_roundCalls signedChar 0 rounds tail hgood
    (by rw [hquiet]; exact ⟨by simp, rfl⟩) hcarries
  have hcount := hcut.length
  constructor
  · rw [chunkRounds_opening]
    intro k round hk
    refine ⟨by simpa using hcut.carries k round hk, ?_⟩
    intro hlt
    have htail1 : (chunkRounds tail).length ≤ 1 := by
      rcases hrounds with hnone | ⟨last, hone, _⟩
      · simp [hnone]
      · simp [hone]
    simpa using hcut.acknowledged k round hk (by omega)
  · rw [chunkRounds_opening]
    refine ⟨fun h => absurd h hstatus, ?_⟩
    -- either the file is not complete or the last round is not acknowledged
    rintro ⟨hfile, hacked⟩
    exfalso
    rcases hrounds with hnone | ⟨last, hone, _, hnot⟩
    · rw [hcut.chunks, hnone] at hfile
      have := congrArg List.length hfile
      simp only [List.flatMap_nil, List.append_nil] at this
      omega
    · apply hnot
      have hlast := chunkRounds_roundCalls_last signedChar 0 rounds tail 0
      rw [Nat.add_zero, hone] at hlast
      simpa using hacked rounds.length last hlast
  · refine ⟨?_, fun h => absurd h hstatus⟩
    rintro ⟨ret, hmem⟩
    exfalso
    rcases List.mem_append.mp hmem with h | h
    · simp at h
    · rcases List.mem_append.mp h with h | h
      · exact etxChar_not_mem_roundCalls signedChar 0 rounds ret h
      · exact etxChar_not_mem_unfinished signedChar htail ret h

theorem kSendData_safe (hsize : env.fSize = some file.length) (hopen : env.fOpen = fileOk) :
    SafeRecord signedChar file (kSendData signedChar file env).log
      (kSendData signedChar file env).status := by
  rcases kSendData_cases signedChar file env file.length hsize hopen with
    ⟨rounds, hgood, hpre, hlength, hlog, hstatus⟩ |
    ⟨rounds, tail, hgood, _, hlength, htail, hlog, hstatus⟩
  · rw [hlog, hstatus]
    exact safeRecord_complete signedChar file env rounds hgood (hpre.eq_of_length hlength)
  · rw [hlog]
    exact safeRecord_stopped signedChar file env rounds tail _ hgood hlength htail hstatus

/-- A short reply is no acknowledgement; the loop goes on with one retry used. -/
theorem retryLoop_short_reply (buffer : List UInt8) (sequence : UInt8) (retry : ℕ) (a : Attempt)
    (attempts : List Attempt) (ha : a.callocOk = true) (hshort : a.reply.length < 5) :
    ¬ GoodAck sequence.toNat a.reply ∧
      retryLoop signedChar buffer sequence retry (a :: attempts) =
        Run.after (exchangeCalls signedChar buffer sequence a)
          (if retry + 1 < retryMax then
            retryLoop signedChar buffer sequence (retry + 1) attempts
          else pure (.left (retry + 1) attempts)) := by
  have hret := ackResult_short signedChar sequence.toNat a.reply hshort
  constructor
  · intro hgood
    rw [(ackResult_eq_ack_iff signedChar sequence.toNat a.reply).mpr hgood] at hret
    exact absurd hret (by decide)
  · rw [retryLoop_cons signedChar buffer sequence retry a attempts ha chkError hret,
      if_neg (by decide), if_neg (by decide)]

/-- Acknowledgement safety of k_send_data, for every file and every sequence of
replies: the record of an opened file is safe, a file that does not open is given
up with nothing written, and given enough outcomes the run returns. -/
theorem acknowledgement_safety (hsize : env.fSize = some file.length)
    (hreads : ∀ o ∈ env.reads, ∃ n, o = some n ∧ 1 ≤ n) :
    (env.fOpen = fileOk → SafeRecord signedChar file (kSendData signedChar file env).log
        (kSendData signedChar file env).status) ∧
      (env.fOpen ≠ fileOk → (kSendData signedChar file env).status = .done (-1) ∧
        ∀ data ret, .sWrite data ret ∉ (kSendData signedChar file env).log) ∧
      (file.length ≤ env.reads.length → retryMax * file.length ≤ env.attempts.length →
        ∃ ret, (kSendData signedChar file env).status = .done ret) ∧
      ∀ buffer sequence retry a attempts, a.callocOk = true → a.reply.length < 5 →
        ¬ GoodAck sequence.toNat a.reply ∧
          retryLoop signedChar buffer sequence retry (a :: attempts) =
            Run.after (exchangeCalls signedChar buffer sequence a)
              (if retry + 1 < retryMax then
                retryLoop signedChar buffer sequence (retry + 1) attempts
              else pure (.left (retry + 1) attempts)) := by
  refine ⟨kSendData_safe signedChar file env hsize, ?_,
    kSendData_returns signedChar file env hsize hreads, ?_⟩
  · intro hopen
    rw [kSendData_not_open signedChar file env file.length hsize hopen]
    exact ⟨rfl, fun data ret h => by simp at h⟩
  · intro buffer sequence retry a attempts ha hshort
    exact retryLoop_short_reply signedChar buffer sequence retry a attempts ha hshort

/-- One byte, whose first reply is cut short and whose second is good. -/
def truncatedEnv : KermitEnv where
  fSize := some 1
  fOpen := fileOk
  reads := [some 1]
  attempts := [⟨true, 6, 8, [0x01, 0x23]⟩, ⟨true, 6, 8, [0x01, 0x23, 0x20, 0x59, 0x3E, 0x0D]⟩]
  etxRet := 1
  fClose := fileOk

theorem acknowledgement_safety_truncated :
    SafeRecord true [0x41] (kSendData true [0x41] truncatedEnv).log
        (kSendData true [0x41] truncatedEnv).status ∧
      (kSendData true [0x41] truncatedEnv).status = .done 0 :=
  ⟨(acknowledgement_safety true [0x41] truncatedEnv rfl (by decide)).1 rfl, rfl⟩

end OmapBootUtils.KermitAcks
