import OmapBootUtils.KermitAcks

/-!
A reply stream with one byte too many. The target acknowledges every packet it is
sent; one byte is inserted somewhere, and each s_read takes the next six bytes. The
reader does not look for a start marker, so behind the inserted byte every block
begins with the end of the acknowledgement before it and is never accepted.
-/
namespace OmapBootUtils.StrayByte

open ScriptedRun LinkCalls KermitPacket KermitTransfer KermitRounds KermitAcks

/-! ### Streams with an inserted element -/

section Stream

variable {α : Type} (x : α) (p : ℕ)

def withStray (stream : List α) : List α := stream.take p ++ x :: stream.drop p

/-- An insertion behind a part of the stream leaves that part as it is. -/
theorem withStray_append (pre stream : List α) (h : pre.length ≤ p) :
    withStray x p (pre ++ stream) = pre ++ withStray x (p - pre.length) stream := by
  rw [withStray, withStray, List.take_append, List.drop_append, List.take_of_length_le h,
    List.drop_of_length_le h, List.append_assoc, List.nil_append]

theorem withStray_append_of_le (stream later : List α) (h : p ≤ stream.length) :
    withStray x p (stream ++ later) = withStray x p stream ++ later := by
  rw [withStray, withStray, List.take_append_of_le_length h, List.drop_append_of_le_length h,
    List.append_assoc, List.cons_append]

theorem withStray_length (stream : List α) : (withStray x p stream).length = stream.length + 1 := by
  rw [withStray, List.length_append, List.length_cons, List.length_take, List.length_drop]
  omega

/-- Behind an insertion a block of the stream is read one element early. -/
theorem drop_withStray_append (pre stream : List α) (h : p ≤ pre.length) :
    ∃ b, (withStray x p (pre ++ stream)).drop pre.length = b :: stream := by
  have hlen : ((withStray x p pre).drop pre.length).length = 1 := by
    rw [List.length_drop, withStray_length]
    omega
  obtain ⟨b, hb⟩ := List.length_eq_one_iff.mp hlen
  refine ⟨b, ?_⟩
  rw [withStray_append_of_le x p pre stream h, List.drop_append_of_le_length
    (by rw [withStray_length]; omega), hb, List.singleton_append]

/-- What is read of a stream does not depend on what comes after it. -/
theorem take_withStray_append (stream later : List α) (n : ℕ) (h : n ≤ stream.length) :
    (withStray x p (stream ++ later)).take n = (withStray x p stream).take n := by
  by_cases hp : p ≤ stream.length
  · rw [withStray_append_of_le x p stream later hp, List.take_append_of_le_length]
    rw [withStray_length]
    omega
  · have hall : withStray x p stream = stream ++ [x] := by
      rw [withStray, List.take_of_length_le (by omega), List.drop_of_length_le (by omega)]
    rw [withStray_append x p stream later (by omega), hall, List.take_append_of_le_length h,
      List.take_append_of_le_length h]

end Stream

/-! ### The target -/

/-- The sequence number in the header of a packet. -/
def headerSequence : LinkCall → ℕ
  | .sWrite data _ => (untochar (data.getD 2 0)).toNat
  | _ => 0

/-- The target answers the header of a packet with the ACK for its sequence number. -/
def answerTo (call : LinkCall) : List UInt8 :=
  if isHeader call then ackPacket (headerSequence call) else []

def LinkCall.received : LinkCall → List UInt8
  | .sRead _ data => data
  | _ => []

/-- An s_read delivers as many bytes as it is asked for. -/
def LinkCall.inFull : LinkCall → Bool
  | .sRead size data => data.length == size
  | _ => true

/-- The answers of the target to the calls of a run, in order. -/
def answers (log : List LinkCall) : List UInt8 := log.flatMap answerTo

/-- The bytes read by the calls of a run, in order. -/
def received (log : List LinkCall) : List UInt8 := log.flatMap LinkCall.received

@[simp] theorem answers_append (l m : List LinkCall) : answers (l ++ m) = answers l ++ answers m :=
  List.flatMap_append

@[simp] theorem received_append (l m : List LinkCall) :
    received (l ++ m) = received l ++ received m := List.flatMap_append

/-- Every s_read delivers in full the next bytes of the answers with a byte inserted; the
answers to earlier calls are `pre`, and have been read. -/
structure AnsweredAfter (x : UInt8) (p : ℕ) (pre : List UInt8) (log : List LinkCall) : Prop where
  full : ∀ call ∈ log, LinkCall.inFull call = true
  next : received log <+: (withStray x p (pre ++ answers log)).drop pre.length

/-- The replies to the calls of a run are the answers of the target with a byte inserted. -/
def Answered (x : UInt8) (p : ℕ) (log : List LinkCall) : Prop := AnsweredAfter x p [] log

/-! ### One exchange -/

section Exchange

variable (signedChar : Bool)

theorem answers_exchange (buffer : List UInt8) (k : ℕ) (a : Attempt) :
    answers (exchangeCalls signedChar buffer (sequenceAt k) a) = ackPacket (k % 128) := by
  have hseq : headerSequence
      (.sWrite (packetSmall signedChar buffer (sequenceAt k)).1 a.headerRet) = k % 128 := by
    simp only [packetSmall_eq, headerSequence, List.getD_cons_succ, List.getD_cons_zero,
      sequenceAt_toNat]
    rw [untochar_tochar _ (by omega) (by omega), Int.toNat_natCast]
  have hread : ∀ size data, isHeader (.sRead size data) = false := fun _ _ => rfl
  simp [answers, exchangeCalls, answerTo, isHeader_header, isHeader_body, hseq, hread]

theorem received_exchange (buffer : List UInt8) (sequence : UInt8) (a : Attempt) :
    received (exchangeCalls signedChar buffer sequence a) = a.reply.take kermitAckSize := by
  simp [received, exchangeCalls, LinkCall.received]

variable {x : UInt8} {p : ℕ} {pre : List UInt8}

theorem AnsweredAfter.later {l m : List LinkCall} (h : AnsweredAfter x p pre (l ++ m))
    (hbalanced : (received l).length = (answers l).length) :
    AnsweredAfter x p (pre ++ answers l) m where
  full call hmem := h.full call (List.mem_append_right l hmem)
  next := by
    obtain ⟨t, ht⟩ := h.next
    refine ⟨t, ?_⟩
    rw [answers_append, ← List.append_assoc, received_append, List.append_assoc] at ht
    have hdrop := congrArg (List.drop (received l).length) ht
    rwa [List.drop_left, List.drop_drop, hbalanced, ← List.length_append] at hdrop

/-- A call that neither reads nor is answered. -/
theorem AnsweredAfter.skip {call : LinkCall} {log : List LinkCall}
    (h : AnsweredAfter x p pre (call :: log)) (hreceived : received [call] = [])
    (hanswers : answers [call] = []) : AnsweredAfter x p pre log := by
  have hlater := AnsweredAfter.later (l := [call]) (m := log) h (by rw [hreceived, hanswers])
  rwa [hanswers, List.append_nil] at hlater

theorem AnsweredAfter.reply_length {buffer : List UInt8} {sequence : UInt8} {a : Attempt}
    {m : List LinkCall}
    (h : AnsweredAfter x p pre (exchangeCalls signedChar buffer sequence a ++ m)) :
    (a.reply.take kermitAckSize).length = kermitAckSize := by
  have hfull := h.full (.sRead kermitAckSize (a.reply.take kermitAckSize)) (by simp [exchangeCalls])
  exact beq_iff_eq.mp hfull

/-- The reply of the first exchange is the next block of the stream. -/
theorem AnsweredAfter.block {buffer : List UInt8} {k : ℕ} {a : Attempt} {m : List LinkCall}
    (h : AnsweredAfter x p pre (exchangeCalls signedChar buffer (sequenceAt k) a ++ m)) :
    a.reply.take kermitAckSize =
      ((withStray x p (pre ++ ackPacket (k % 128))).drop pre.length).take kermitAckSize := by
  have hlen := h.reply_length signedChar
  have hnext := h.next
  rw [received_append, received_exchange, answers_append, answers_exchange,
    ← List.append_assoc] at hnext
  have hprefix := (List.prefix_append _ _).trans hnext
  have htake := List.prefix_iff_eq_take.mp hprefix
  rw [hlen] at htake
  rw [htake, List.take_drop, List.take_drop, take_withStray_append]
  rw [List.length_append, ackPacket_length]

/-! ### Acceptance -/

/-- Only the first five bytes of a reply are looked at. -/
theorem goodAck_congr (seqNum : ℕ) (reply reply' : List UInt8)
    (h : reply.take 5 = reply'.take 5) : GoodAck seqNum reply ↔ GoodAck seqNum reply' := by
  have hbyte : ∀ i, i < 5 → reply.getD i 0 = reply'.getD i 0 := fun i hi => by
    rw [List.getD_eq_getElem?_getD, ← List.getElem?_take_of_lt hi, h, List.getElem?_take_of_lt hi,
      List.getD_eq_getElem?_getD]
  simp only [GoodAck, KermitAck.ofBytes, KermitAck.sum, hbyte 1 (by omega), hbyte 2 (by omega),
    hbyte 3 (by omega), hbyte 4 (by omega)]

theorem goodAck_take_iff (seqNum : ℕ) (reply : List UInt8) :
    GoodAck seqNum (reply.take kermitAckSize) ↔ GoodAck seqNum reply :=
  goodAck_congr seqNum _ _ (by rw [List.take_take, kermitAckSize, Nat.min_eq_left (by omega)])

/-- The length of an ACK, taken for its sequence number, only fits where the sequence
number, taken for the type, does not. -/
theorem length_not_sequence (seqNum : ℕ) (hseq : untochar (tochar 3) = seqNum)
    (htype : tochar seqNum = ackType) : False := by
  rw [untochar_tochar 3 (by omega) (by omega)] at hseq
  obtain rfl : seqNum = 3 := by omega
  exact absurd htype (by decide)

/-- An ACK behind one byte is not accepted. -/
theorem not_goodAck_shifted (b : UInt8) (seqNum : ℕ) :
    ¬ GoodAck seqNum (b :: (ackPacket seqNum).take 5) := fun h =>
  length_not_sequence seqNum h.2.1 h.2.2

/-- An ACK with a byte inserted is accepted exactly if the bytes that are looked at are
those of the ACK. -/
theorem goodAck_withStray_iff (x : UInt8) (q seqNum : ℕ) (h : seqNum < 128) :
    GoodAck seqNum ((withStray x q (ackPacket seqNum)).take kermitAckSize) ↔
      (withStray x q (ackPacket seqNum)).take 5 = (ackPacket seqNum).take 5 := by
  have hunto : untochar (tochar seqNum) = seqNum := untochar_tochar _ (by omega) (by omega)
  constructor
  · rintro ⟨hcheck, hseq, htype⟩
    match q with
    | 0 => exact absurd hseq fun h => length_not_sequence seqNum h htype
    | 1 => exact absurd hseq fun h => length_not_sequence seqNum h htype
    | 2 =>
      -- the sequence number is taken for the type and the type for the checksum
      have hx : untochar x = seqNum := hseq
      have htype : tochar seqNum = ackType := htype
      have hcheck : ackType =
        checkChar ((tochar 3).toNat + x.toNat + (tochar seqNum).toNat) := hcheck
      rw [htype, show untochar ackType = 57 by decide] at hunto
      have hx : x = ackType := by
        rw [← UInt8.toNat_inj]
        unfold untochar space at hx
        have hlt := x.toNat_lt
        have hack : ackType.toNat = 89 := rfl
        omega
      rw [hx, htype] at hcheck
      exact absurd hcheck (by decide)
    | 3 =>
      -- the type is doubled, and the checksum is the letter of the type
      obtain rfl : x = ackType := htype
      have hcheck : ackType =
        checkChar ((tochar 3).toNat + (tochar seqNum).toNat + ackType.toNat) := hcheck
      simp [withStray, ackPacket, ← hcheck]
    | 4 =>
      have hcheck : x =
        checkChar ((tochar 3).toNat + (tochar seqNum).toNat + ackType.toNat) := hcheck
      simp [withStray, ackPacket, ← hcheck]
    | q + 5 =>
      rw [withStray, List.take_append_of_le_length, List.take_take,
        Nat.min_eq_left (by omega)]
      rw [List.length_take, ackPacket_length, kermitAckSize]
      omega
  · intro hsame
    rw [goodAck_take_iff, goodAck_congr seqNum _ _ hsame]
    exact goodAck_ackPacket seqNum h

/-- The byte is not inserted before the ACK that starts at `start`, and not so as to
change what is looked at of it. -/
def Harmless (x : UInt8) (p start seqNum : ℕ) : Prop :=
  start ≤ p ∧ (withStray x (p - start) (ackPacket seqNum)).take 5 = (ackPacket seqNum).take 5

theorem harmless_of_le (x : UInt8) (p start seqNum : ℕ) (h : start + 5 ≤ p) :
    Harmless x p start seqNum := by
  refine ⟨by omega, ?_⟩
  rw [withStray, List.take_append_of_le_length, List.take_take, Nat.min_eq_left (by omega)]
  rw [List.length_take, ackPacket_length, kermitAckSize]
  omega

/-- The next reply is accepted exactly if the inserted byte does no harm to it. -/
theorem AnsweredAfter.good_iff {buffer : List UInt8} {k : ℕ} {a : Attempt} {m : List LinkCall}
    (h : AnsweredAfter x p pre (exchangeCalls signedChar buffer (sequenceAt k) a ++ m)) :
    GoodAck (k % 128) a.reply ↔ Harmless x p pre.length (k % 128) := by
  rw [← goodAck_take_iff, h.block signedChar]
  by_cases hpre : pre.length ≤ p
  · rw [withStray_append x p pre _ hpre, List.drop_left,
      goodAck_withStray_iff x _ _ (Nat.mod_lt k (by omega)), Harmless, and_iff_right hpre]
  · obtain ⟨b, hb⟩ := drop_withStray_append x p pre (ackPacket (k % 128)) (by omega)
    rw [hb, kermitAckSize, List.take_succ_cons]
    exact iff_of_false (not_goodAck_shifted b _) fun hharmless => hpre hharmless.1

theorem AnsweredAfter.first_good_iff {β : Type} {buffer : List UInt8} {k : ℕ} {a : Attempt}
    {attempts : List Attempt} {next : LoopExit → Link β} {m : List LinkCall}
    (h : AnsweredAfter x p pre
      ((retryLoop signedChar buffer (sequenceAt k) 0 (a :: attempts) >>= next).log ++ m))
    (ha : a.callocOk = true) :
    GoodAck (k % 128) a.reply ↔ Harmless x p pre.length (k % 128) := by
  rw [retryLoop_cons signedChar buffer (sequenceAt k) 0 a attempts ha _ rfl, Run.after_bind,
    Run.after_log, List.append_assoc] at h
  exact h.good_iff signedChar

/-- Exchanges that are read in full take one block each. -/
theorem AnsweredAfter.exchanges {buffer : List UInt8} {k : ℕ} {attempts : List Attempt}
    {m : List LinkCall} (h : AnsweredAfter x p pre
      (attempts.flatMap (exchangeCalls signedChar buffer (sequenceAt k)) ++ m)) :
    ∃ pre', pre'.length = pre.length + 6 * attempts.length ∧ AnsweredAfter x p pre' m := by
  induction attempts generalizing pre with
  | nil => exact ⟨pre, rfl, h⟩
  | cons a attempts ih =>
    rw [List.flatMap_cons, List.append_assoc] at h
    have hfull := h.reply_length signedChar
    have hlater := h.later (by rw [received_exchange, answers_exchange, hfull, ackPacket_length])
    obtain ⟨pre', hlen, hpre'⟩ := ih hlater
    refine ⟨pre', ?_, hpre'⟩
    rw [hlen, answers_exchange, List.length_append, ackPacket_length, List.length_cons,
      kermitAckSize]
    omega

/-- A chunk is acknowledged by the first reply or not at all. -/
theorem AnsweredAfter.acked_harmless {β : Type} {buffer : List UInt8} {k : ℕ}
    {attempts failed rest : List Attempt} {a : Attempt} {next : LoopExit → Link β}
    {m : List LinkCall}
    (h : AnsweredAfter x p pre
      ((retryLoop signedChar buffer (sequenceAt k) 0 attempts >>= next).log ++ m))
    (hacked : Acked signedChar buffer (sequenceAt k) 0 attempts failed a rest) :
    Harmless x p pre.length (k % 128) := by
  have hgood := hacked.acked_good
  have hbad := hacked.failed_bad
  rw [sequenceAt_toNat] at hgood hbad
  rw [hacked.run, Run.after_bind, Run.after_log, List.flatMap_append, List.append_assoc,
    List.append_assoc] at h
  cases failed with
  | nil =>
    rw [List.flatMap_nil, List.nil_append, List.flatMap_singleton] at h
    exact (h.good_iff signedChar).mp hgood
  | cons first failed =>
    obtain ⟨pre', hlen, hlast⟩ := h.exchanges signedChar
    rw [List.flatMap_singleton] at hlast
    have hharmless := (hlast.good_iff signedChar).mp hgood
    rw [List.length_cons] at hlen
    exact harmless_of_le x p _ _ (by have := hharmless.1; omega)

end Exchange

/-! ### The transfer -/

/-- The number of f_reads that deliver a file, if none of them fails. -/
def chunkCount : List Outcome → List UInt8 → Option ℕ
  | [], rest => if rest = [] then some 0 else none
  | outcome :: reads, rest =>
      if rest = [] then some 0 else outcome.bind fun n =>
        (chunkCount reads (rest.drop (readChunk rest.length n rest).length)).map (· + 1)

/-- No chunk is to come from chunk `k` on, or the byte does no harm to the last ACK. -/
def Survives (x : UInt8) (p k chunks : ℕ) : Prop :=
  chunks = 0 ∨ Harmless x p (6 * (k + chunks - 1)) ((k + chunks - 1) % 128)

/-- A chunk that is acknowledged leaves the rest of the transfer to survive. -/
theorem survives_succ_iff (x : UInt8) (p k chunks : ℕ)
    (h : Harmless x p (6 * k) (k % 128)) :
    Survives x p k (chunks + 1) ↔ Survives x p (k + 1) chunks := by
  cases chunks with
  | zero => exact iff_of_true (Or.inr h) (Or.inl rfl)
  | succ chunks =>
    have hlast : k + (chunks + 1 + 1) - 1 = k + 1 + (chunks + 1) - 1 := by omega
    simp [Survives, hlast]

theorem not_survives_succ (x : UInt8) (p k chunks : ℕ)
    (h : ¬ Harmless x p (6 * k) (k % 128)) : ¬ Survives x p k (chunks + 1) := by
  rintro (hnone | hharmless)
  · omega
  · cases chunks with
    | zero => exact h hharmless
    | succ chunks => exact h (harmless_of_le x p _ _ (by have := hharmless.1; omega))

theorem transferLoop_survives_iff (signedChar : Bool) (x : UInt8) (p : ℕ) (reads : List Outcome)
    (k chunks : ℕ) (rest : List UInt8) (attempts : List Attempt) (pre : List UInt8)
    (m : List LinkCall) (hpre : pre.length = 6 * k) (hchunks : chunkCount reads rest = some chunks)
    (hattempts : chunks ≤ attempts.length) (hcalloc : ∀ a ∈ attempts, a.callocOk = true)
    (h : AnsweredAfter x p pre
      ((transferLoop signedChar reads rest.length (sequenceAt k) rest attempts).log ++ m)) :
    (transferLoop signedChar reads rest.length (sequenceAt k) rest attempts).status = .done none ↔
      Survives x p k chunks := by
  induction reads generalizing k chunks rest attempts pre with
  | nil =>
    rw [chunkCount] at hchunks
    split at hchunks
    · next hrest =>
      obtain rfl : 0 = chunks := by simpa using hchunks
      subst hrest
      exact iff_of_true (by simp [transferLoop, Build.transferLoop]) (Or.inl rfl)
    · cases hchunks
  | cons outcome reads ih =>
    rw [chunkCount] at hchunks
    split at hchunks
    · next hrest =>
      obtain rfl : 0 = chunks := by simpa using hchunks
      subst hrest
      exact iff_of_true (by rw [List.length_nil, transferLoop_zero]; rfl) (Or.inl rfl)
    · next hrest =>
      cases outcome with
      | none => cases hchunks
      | some n =>
        rw [Option.bind_some] at hchunks
        obtain ⟨others, hothers, rfl⟩ := Option.map_eq_some_iff.mp hchunks
        obtain ⟨a, attempts, rfl⟩ := List.exists_cons_of_length_pos
          (show 0 < attempts.length by omega)
        have hsize : rest.length ≠ 0 := fun hzero => hrest (List.length_eq_zero_iff.mp hzero)
        have ha := hcalloc a (by simp)
        have hread := h
        rw [transferLoop_cons signedChar n reads rest.length (sequenceAt k) rest _ hsize,
          Run.after_log, List.append_assoc, List.singleton_append] at hread
        replace hread := hread.skip rfl rfl
        by_cases hharmless : Harmless x p pre.length (k % 128)
        · -- the first reply is accepted and takes one block of the stream
          have hgood := (hread.first_good_iff signedChar ha).mpr hharmless
          rw [← sequenceAt_toNat] at hgood
          have hacked := retryLoop_good signedChar (readChunk rest.length n rest) (sequenceAt k) 0 a
            attempts ha hgood (by decide)
          have hdrop : rest.length - (readChunk rest.length n rest).length =
            (rest.drop (readChunk rest.length n rest).length).length := List.length_drop.symm
          rw [transferLoop_acked signedChar hsize hacked, hdrop] at h ⊢
          rw [Run.after_log, List.cons_append, List.cons_append, List.append_assoc] at h
          obtain ⟨pre', hlen, hlater⟩ := (h.skip rfl rfl).exchanges signedChar
          rw [hpre] at hharmless
          rw [Run.after_status, survives_succ_iff x p k others hharmless]
          refine ih (k + 1) others _ attempts pre' ?_ hothers ?_ ?_ hlater
          · rw [hlen, hpre, List.nil_append, List.length_singleton]
            omega
          · simpa using hattempts
          · exact fun b hb => hcalloc b (by simp [hb])
        · refine iff_of_false (fun hdone => ?_)
            (not_survives_succ x p k others (hpre ▸ hharmless))
          rcases retryLoop_cases signedChar (readChunk rest.length n rest) (sequenceAt k)
            (a :: attempts) 0 (by decide) with ⟨failed, b, left, hacked⟩ | ⟨failed, hunacked⟩
          · exact hharmless (hread.acked_harmless signedChar hacked)
          · obtain ⟨ret, _, hret⟩ :=
              (transferLoop_unacked signedChar hsize hunacked).status none hdone
            cases hret

/-! ### Recovery -/

/-- The file has the size that was reported and is read in `chunks` f_reads, every
transmission is scripted, and no calloc fails. -/
structure Transfers (file : List UInt8) (env : KermitEnv) (chunks : ℕ) : Prop where
  size : env.fSize = some file.length
  opened : env.fOpen = fileOk
  reads : chunkCount env.reads file = some chunks
  scripted : chunks ≤ env.attempts.length
  calloc : ∀ a ∈ env.attempts, a.callocOk = true

/-- k_send_data returns 0 exactly where its file loop ends. -/
theorem kSendData_done_iff (signedChar : Bool) (file : List UInt8) (env : KermitEnv)
    (hsize : env.fSize = some file.length) (hopen : env.fOpen = fileOk) :
    (kSendData signedChar file env).status = .done 0 ↔
      (transferLoop signedChar env.reads file.length (sequenceAt 0) file env.attempts).status =
        .done none := by
  rw [kSendData_opened signedChar file env _ hsize hopen, Run.after_status, Run.bind_done_iff]
  constructor
  · intro h
    obtain ⟨exit, hexit, hzero⟩ := h
    rcases transferLoop_cases signedChar env.reads 0 file.length file env.attempts with
      ⟨rounds, ht⟩ | ⟨rounds, tail, hs⟩
    · exact ht.status
    · obtain ⟨ret, hneg, rfl⟩ := hs.status exit hexit
      rw [afterLoop_status, Status.done.injEq, Option.getD_some] at hzero
      omega
  · intro hdone
    exact ⟨none, hdone, rfl⟩

/-- With a byte inserted into the replies the transfer succeeds exactly if the file is
empty or the byte comes behind the bytes looked at in the last ACK, or is one of them. -/
theorem stray_byte_survived_iff (signedChar : Bool) (file : List UInt8) (env : KermitEnv)
    (chunks : ℕ) (x : UInt8) (p : ℕ) (h : Transfers file env chunks)
    (hanswered : Answered x p (kSendData signedChar file env).log) :
    (kSendData signedChar file env).status = .done 0 ↔
      chunks = 0 ∨ Harmless x p (6 * (chunks - 1)) ((chunks - 1) % 128) := by
  have hlog := hanswered
  rw [kSendData_opened signedChar file env _ h.size h.opened, Run.after_log] at hlog
  have hloop := (hlog.skip rfl rfl).skip rfl rfl
  obtain ⟨m, hm⟩ := Run.log_prefix_bind
    (transferLoop signedChar env.reads file.length (sequenceAt 0) file env.attempts) _
  rw [← hm] at hloop
  rw [kSendData_done_iff signedChar file env h.size h.opened]
  have hsurvives := transferLoop_survives_iff signedChar x p env.reads 0 chunks file env.attempts []
    m rfl h.reads h.scripted h.calloc hloop
  rwa [Survives, Nat.zero_add] at hsurvives

/-- A file of one byte, and the replies to its packet. -/
def oneByteReplies (replies : List (List UInt8)) : KermitEnv where
  fSize := some 1
  fOpen := fileOk
  reads := [some 1]
  attempts := replies.map fun reply => ⟨true, 4, 3, reply⟩
  etxRet := 1
  fClose := 0

/-- The byte comes behind the only ACK. -/
theorem stray_byte_survived_behind :
    (kSendData false [0x41] (oneByteReplies [ackPacket 0])).status = .done 0 := by
  exact (stray_byte_survived_iff false [0x41] (oneByteReplies [ackPacket 0]) 1 0x55 6
    ⟨rfl, rfl, by decide, by decide, by decide⟩ ⟨by decide, by decide⟩).mpr
      (Or.inr ⟨by decide, by decide⟩)

/-- The byte comes before the only ACK. -/
theorem stray_byte_not_survived :
    ¬ ∀ signedChar file env chunks x p, Transfers file env chunks →
      Answered x p (kSendData signedChar file env).log →
        (kSendData signedChar file env).status = .done 0 := by
  intro h
  have hdone := h false [0x41] (oneByteReplies [0x55 :: (ackPacket 0).take 5,
    0x0D :: (ackPacket 0).take 5, 0x0D :: (ackPacket 0).take 5, 0x0D :: (ackPacket 0).take 5]) 1
    0x55 0 ⟨rfl, rfl, by decide, by decide, by decide⟩ ⟨by decide, by decide⟩
  exact absurd hdone (by decide)

end OmapBootUtils.StrayByte
