import OmapBootUtils.KermitRounds
import OmapBootUtils.ReleasedRuns

/-!
Which f_reads a run of the ukermit sender comes to: each one after the chunks
before it are acknowledged. Where one of them fails, the run is at the packet
function with a size that its buffer does not have.
-/
namespace OmapBootUtils.KermitReads

open ScriptedRun LinkCalls ReleasedRuns KermitPacket KermitTransfer KermitRounds

variable (signedChar : Bool)

/-- The attempts left when a chunk has been acknowledged, if it is. -/
def leftAfterAck (seqNum : ℕ) : ℕ → List Attempt → Option (List Attempt)
  | _, [] => none
  | retry, a :: attempts =>
      if a.callocOk = false then none
      else if GoodAck seqNum a.reply then some attempts
      else if ackResult signedChar seqNum (KermitAck.ofBytes a.reply) < 0 then none
      else if retry + 1 < retryMax then leftAfterAck seqNum (retry + 1) attempts
      else none

/-- The retry loop gives a chunk up: calloc fails, the reply is of no known type, or
the fourth try is not acknowledged either. -/
def GivenUp (seqNum : ℕ) : ℕ → List Attempt → Prop
  | _, [] => False
  | retry, a :: attempts => a.callocOk = false ∨ ¬ GoodAck seqNum a.reply ∧
      (ackResult signedChar seqNum (KermitAck.ofBytes a.reply) < 0 ∨
        (retry + 1 < retryMax → GivenUp seqNum (retry + 1) attempts))

/-- All chunks before a failing f_read are acknowledged; `unused` are the attempts not
made by then. -/
def FailedReadReached (unused : List Attempt) :
    ℕ → ℕ → List UInt8 → List Outcome → List Attempt → Prop
  | _, _, _, [], _ => False
  | _, size, _, none :: _, attempts => size ≠ 0 ∧ attempts = unused
  | k, size, rest, some n :: reads, attempts => size ≠ 0 ∧
      ∃ left, leftAfterAck signedChar (k % 128) 0 attempts = some left ∧
        FailedReadReached unused (k + 1) (size - (readChunk size n rest).length)
          (rest.drop (readChunk size n rest).length) reads left

theorem retryLoop_defined (buffer : List UInt8) (sequence : UInt8) (attempts : List Attempt) :
    (retryLoop signedChar buffer sequence 0 attempts).status ≠ .undefined := by
  rcases retryLoop_cases signedChar buffer sequence attempts 0 (by decide) with
    ⟨failed, a, rest, h⟩ | ⟨failed, h⟩
  · rw [h.run]
    simp
  · rcases h.status with ⟨hs, _⟩ | ⟨ret, _, hs⟩ | ⟨rest, hs⟩ <;> simp [hs]

theorem retryLoop_left_iff (buffer : List UInt8) (sequence : UInt8) (attempts left : List Attempt)
    (retry : ℕ) (hretry : retry < retryMax) :
    (∃ tries, tries ≠ retryMax ∧
        (retryLoop signedChar buffer sequence retry attempts).status = .done (.left tries left)) ↔
      leftAfterAck signedChar sequence.toNat retry attempts = some left := by
  induction attempts generalizing retry with
  | nil => simp [retryLoop, Build.retryLoop, leftAfterAck]
  | cons a attempts ih =>
    cases ha : a.callocOk with
    | false =>
      rw [retryLoop_calloc_failed signedChar buffer sequence retry a attempts ha]
      simp [leftAfterAck, ha]
    | true =>
      have hnext : leftAfterAck signedChar sequence.toNat retry (a :: attempts) =
          if GoodAck sequence.toNat a.reply then some attempts
          else if ackResult signedChar sequence.toNat (KermitAck.ofBytes a.reply) < 0 then none
          else if retry + 1 < retryMax then
            leftAfterAck signedChar sequence.toNat (retry + 1) attempts
          else none := by rw [leftAfterAck, if_neg (by rw [ha]; decide)]
      rw [retryLoop_cons signedChar buffer sequence retry a attempts ha _ rfl, hnext,
        Run.after_status]
      by_cases hgood : GoodAck sequence.toNat a.reply
      · have hack := (ackResult_eq_ack_iff signedChar sequence.toNat a.reply).mpr hgood
        rw [if_pos hgood, hack, if_neg (by decide), if_pos rfl]
        simp only [Run.pure_status, Status.done.injEq, LoopExit.left.injEq, Option.some.injEq]
        constructor
        · rintro ⟨_, _, _, h⟩
          exact h
        · intro h
          exact ⟨retry, hretry.ne, rfl, h⟩
      · have hack := mt (ackResult_eq_ack_iff signedChar sequence.toNat a.reply).mp hgood
        rw [if_neg hgood, if_neg hack]
        split
        · simp
        · split
          · next hmore => exact ih (retry + 1) hmore
          · next hlast =>
            have hmax : retry + 1 = retryMax := by omega
            simp [hmax]

/-- A loop exit from which k_send_data returns. -/
def LoopExit.Failed : LoopExit → Prop
  | .returned _ => True
  | .left retry _ => retry = retryMax

theorem retryLoop_failed_iff (buffer : List UInt8) (sequence : UInt8) (attempts : List Attempt)
    (retry : ℕ) (hretry : retry < retryMax) :
    (∃ exit, (retryLoop signedChar buffer sequence retry attempts).status = .done exit ∧
        LoopExit.Failed exit) ↔
      GivenUp signedChar sequence.toNat retry attempts := by
  induction attempts generalizing retry with
  | nil => simp [retryLoop, Build.retryLoop, GivenUp]
  | cons a attempts ih =>
    cases ha : a.callocOk with
    | false =>
      rw [retryLoop_calloc_failed signedChar buffer sequence retry a attempts ha]
      simp [GivenUp, ha, LoopExit.Failed]
    | true =>
      rw [retryLoop_cons signedChar buffer sequence retry a attempts ha _ rfl, GivenUp,
        Run.after_status, ha]
      by_cases hgood : GoodAck sequence.toNat a.reply
      · have hack := (ackResult_eq_ack_iff signedChar sequence.toNat a.reply).mpr hgood
        rw [hack, if_neg (by decide), if_pos rfl]
        simp [hgood, LoopExit.Failed, hretry.ne]
      · have hack := mt (ackResult_eq_ack_iff signedChar sequence.toNat a.reply).mp hgood
        rw [if_neg hack]
        by_cases hneg : ackResult signedChar sequence.toNat (KermitAck.ofBytes a.reply) < 0
        · simp [hgood, hneg, LoopExit.Failed]
        · rw [if_neg hneg]
          by_cases hmore : retry + 1 < retryMax
          · rw [if_pos hmore, ih (retry + 1) hmore]
            simp [hgood, hneg, hmore]
          · have hmax : retry + 1 = retryMax := by omega
            simp [hgood, hneg, hmax, LoopExit.Failed]

/-- A round with an f_read that works ends the file loop if its chunk is given up, and
goes on with the next one if it is acknowledged. -/
theorem transferLoop_ends_iff (p : Status (Option ℤ) → Prop) (hwaiting : ¬ p .waiting)
    (returns : Prop) (hreturns : ∀ ret, p (.done (some ret)) ↔ returns) (n : ℕ)
    (reads : List Outcome) (k size : ℕ) (rest : List UInt8) (attempts : List Attempt)
    (hsize : size ≠ 0) :
    p (transferLoop signedChar (some n :: reads) size (sequenceAt k) rest attempts).status ↔
      (GivenUp signedChar (k % 128) 0 attempts ∧ returns) ∨
        ∃ left, leftAfterAck signedChar (k % 128) 0 attempts = some left ∧
          p (transferLoop signedChar reads (size - (readChunk size n rest).length)
            (sequenceAt (k + 1)) (rest.drop (readChunk size n rest).length) left).status := by
  have hfailed := retryLoop_failed_iff signedChar (readChunk size n rest) (sequenceAt k)
    attempts 0 (by decide)
  have hleft := fun left => retryLoop_left_iff signedChar (readChunk size n rest)
    (sequenceAt k) attempts left 0 (by decide)
  rw [sequenceAt_toNat] at hfailed hleft
  rw [transferLoop_cons signedChar n reads size (sequenceAt k) rest attempts hsize,
    Run.after_status, Run.bind_ends_iff p hwaiting _ _ (retryLoop_defined signedChar _ _ _),
    ← hfailed]
  constructor
  · intro h
    obtain ⟨exit, hexit, hends⟩ := h
    cases exit with
    | returned ret => exact Or.inl ⟨⟨_, hexit, trivial⟩, (hreturns ret).mp hends⟩
    | left tries left =>
      by_cases htries : tries = retryMax
      · simp only [htries, if_true] at hends
        exact Or.inl ⟨⟨_, hexit, htries⟩, (hreturns (-1)).mp hends⟩
      · simp only [htries, if_false, nextSequence_sequenceAt] at hends
        exact Or.inr ⟨left, (hleft left).mp ⟨tries, htries, hexit⟩, hends⟩
  · intro h
    rcases h with ⟨⟨exit, hexit, hgiven⟩, hret⟩ | ⟨left, hack, hends⟩
    · refine ⟨exit, hexit, ?_⟩
      cases exit with
      | returned ret => exact (hreturns ret).mpr hret
      | left tries left =>
        have htries : tries = retryMax := hgiven
        simp only [htries, if_true]
        exact (hreturns (-1)).mpr hret
    · obtain ⟨tries, htries, hexit⟩ := (hleft left).mpr hack
      refine ⟨.left tries left, hexit, ?_⟩
      simp only [htries, if_false, nextSequence_sequenceAt]
      exact hends

/-- The loops of the sender only move data. -/
theorem retryLoop_onlyMoves (buffer : List UInt8) (sequence : UInt8) (attempts : List Attempt)
    (retry : ℕ) :
    Avoids LinkCall.Controls (retryLoop signedChar buffer sequence retry attempts) := by
  induction attempts generalizing retry with
  | nil => exact Avoids.block _
  | cons a attempts ih =>
    cases ha : a.callocOk with
    | false =>
      rw [retryLoop_calloc_failed signedChar buffer sequence retry a attempts ha]
      exact Avoids.pure _ _
    | true =>
      rw [retryLoop_cons signedChar buffer sequence retry a attempts ha _ rfl]
      apply Avoids.after _ _ _ (by simp [exchangeCalls, LinkCall.Controls])
      split
      · exact Avoids.pure _ _
      · split
        · exact Avoids.pure _ _
        · split
          · exact ih (retry + 1)
          · exact Avoids.pure _ _

theorem transferLoop_onlyMoves (reads : List Outcome) (size : ℕ) (sequence : UInt8)
    (rest : List UInt8) (attempts : List Attempt) :
    Avoids LinkCall.Controls (transferLoop signedChar reads size sequence rest attempts) := by
  induction reads generalizing size sequence rest attempts with
  | nil =>
    rw [transferLoop, Build.transferLoop]
    split
    · exact Avoids.pure _ _
    · exact Avoids.block _
  | cons outcome reads ih =>
    by_cases hsize : size = 0
    · subst hsize
      rw [transferLoop_zero]
      exact Avoids.pure _ _
    · cases outcome with
      | none =>
        rw [transferLoop_failed signedChar reads size sequence rest attempts hsize]
        intro call hcall
        rw [failedChunk_log] at hcall
        cases hcall
      | some n =>
        rw [transferLoop_cons signedChar n reads size sequence rest attempts hsize]
        apply Avoids.after _ _ _ (by simp [LinkCall.Controls])
        apply Avoids.bind _ _ _ (retryLoop_onlyMoves signedChar _ _ _ _)
        intro exit
        cases exit with
        | returned ret => exact Avoids.pure _ _
        | left tries left =>
          simp only
          split
          · exact Avoids.pure _ _
          · exact ih _ _ _ _

theorem failedChunk_undefined_iff (attempts : List Attempt) :
    (failedChunk attempts).status = .undefined ↔
      ∃ a unused, attempts = a :: unused ∧ a.callocOk = true := by
  cases attempts with
  | nil => simp [failedChunk]
  | cons a unused => cases ha : a.callocOk <;> simp [failedChunk, ha]

/-- A run comes to a failing read in its first round or, once that is acknowledged, later. -/
theorem failedReadReached_some_iff (unused : List Attempt) (k size n : ℕ) (rest : List UInt8)
    (reads : List Outcome) (attempts : List Attempt) (hsize : size ≠ 0) :
    FailedReadReached signedChar unused k size rest (some n :: reads) attempts ↔
      ∃ left, leftAfterAck signedChar (k % 128) 0 attempts = some left ∧
        FailedReadReached signedChar unused (k + 1) (size - (readChunk size n rest).length)
          (rest.drop (readChunk size n rest).length) reads left := by
  rw [FailedReadReached, and_iff_right hsize]

theorem not_failedReadReached_zero (unused : List Attempt) (k : ℕ) (rest : List UInt8)
    (reads : List Outcome) (attempts : List Attempt) :
    ¬ FailedReadReached signedChar unused k 0 rest reads attempts := by
  rcases reads with _ | ⟨_ | n, reads⟩ <;> simp [FailedReadReached]

/-- The file loop runs into undefined behaviour exactly where an f_read fails and the
calloc after it does not. -/
theorem transferLoop_undefined_iff (reads : List Outcome) (k size : ℕ) (rest : List UInt8)
    (attempts : List Attempt) :
    (transferLoop signedChar reads size (sequenceAt k) rest attempts).status = .undefined ↔
      ∃ a unused, FailedReadReached signedChar (a :: unused) k size rest reads attempts ∧
        a.callocOk = true := by
  induction reads generalizing k size rest attempts with
  | nil =>
    rw [transferLoop, Build.transferLoop]
    split <;> simp [FailedReadReached]
  | cons outcome reads ih =>
    by_cases hsize : size = 0
    · subst hsize
      rw [transferLoop_zero]
      simp [not_failedReadReached_zero]
    · cases outcome with
      | none =>
        rw [transferLoop_failed signedChar reads size (sequenceAt k) rest attempts hsize,
          failedChunk_undefined_iff]
        simp [FailedReadReached, hsize]
      | some n =>
        rw [transferLoop_ends_iff signedChar (· = .undefined) (by simp) False (by simp) n reads k
          size rest attempts hsize, and_false, false_or]
        simp only [ih, failedReadReached_some_iff signedChar _ k size n rest reads attempts hsize]
        constructor
        · intro h
          obtain ⟨left, hack, a, unused, hreach, ha⟩ := h
          exact ⟨a, unused, ⟨left, hack, hreach⟩, ha⟩
        · intro h
          obtain ⟨a, unused, ⟨left, hack, hreach⟩, ha⟩ := h
          exact ⟨left, hack, a, unused, hreach, ha⟩

/-- k_send_data on an opened file comes to an f_read that fails. -/
def ComesToFailedRead (file : List UInt8) (env : KermitEnv) : Prop :=
  ∃ size unused, env.fSize = some size ∧ env.fOpen = fileOk ∧
    FailedReadReached signedChar unused 0 size file env.reads env.attempts

/-- It comes to one, and the calloc after it does not fail. -/
def CrashesOnRead (file : List UInt8) (env : KermitEnv) : Prop :=
  ∃ size a unused, env.fSize = some size ∧ env.fOpen = fileOk ∧
    FailedReadReached signedChar (a :: unused) 0 size file env.reads env.attempts ∧
      a.callocOk = true

theorem kSendData_undefined_iff (file : List UInt8) (env : KermitEnv) :
    (kSendData signedChar file env).status = .undefined ↔ CrashesOnRead signedChar file env := by
  cases hsize : env.fSize with
  | none => simp [kSendData, Build.kSendData, CrashesOnRead, hsize]
  | some size =>
    by_cases hopen : env.fOpen = fileOk
    · have hafter : ∀ exit, (afterLoop env exit).status ≠ .undefined := fun exit => by
        simp [afterLoop_status]
      have hcrash : CrashesOnRead signedChar file env ↔ ∃ a unused,
          FailedReadReached signedChar (a :: unused) 0 size file env.reads env.attempts ∧
            a.callocOk = true := by
        simp [CrashesOnRead, hsize, hopen]
      rw [kSendData_opened signedChar file env size hsize hopen, Run.after_status,
        Run.bind_undefined_iff, hcrash, ← transferLoop_undefined_iff]
      exact or_iff_left fun h => by
        obtain ⟨exit, _, hundef⟩ := h
        exact hafter exit hundef
    · rw [kSendData_not_open signedChar file env size hsize hopen]
      simp [CrashesOnRead, hopen]

end OmapBootUtils.KermitReads
