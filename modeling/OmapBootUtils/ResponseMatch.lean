import OmapBootUtils.ResetMatcher
import OmapBootUtils.SerialApps

/-!
get_response of ucmd on a stream of received characters. It is the matcher that
drops the character which breaks a match, so it finds the expected string where
the characters before it fall into failed attempts, and nowhere else.
-/
namespace OmapBootUtils.ResponseMatch

open ScriptedRun LinkCalls SerialPort SerialApps ResetMatcher

/-- Each s_getc reads the next character. -/
def received (stream : List UInt8) : List SerialRead := stream.map fun c => some [c]

/-- The calls that read these characters. -/
def charReads (chars : List UInt8) : List LinkCall := chars.map fun c => .sRead 1 [c]

/-- get_response returns 0, having read these characters and no more. -/
def Answered (x : Link ℤ) (chars : List UInt8) : Prop :=
  x.log = charReads chars ∧ x.status = .done 0

variable (expected : List UInt8)

/-- One character: the index moves on or falls back to 0. -/
theorem getResponse_cons (i : ℕ) (c : UInt8) (stream : List UInt8) (h : i < expected.length) :
    getResponse expected i (received (c :: stream)) =
      Run.after [.sRead 1 [c]] (getResponse expected (advance expected i c) (received stream)) := by
  have hchar : sGetc (some [c]) = Run.after [.sRead 1 [c]] (pure (c.toNat : ℤ)) := by
    simp [sGetc, sRead_eq, readRet]
  have hindex : (if UInt8.ofNat (c.toNat : ℤ).toNat = expected.getD i 0 then i + 1 else 0) =
      advance expected i c := by
    rw [advance, List.getD_eq_getElem?_getD, List.getElem?_eq_getElem h, Int.toNat_natCast,
      UInt8.ofNat_toNat, Option.getD_some]
    simp only [Option.some.injEq, eq_comm]
  rw [received, List.map_cons, getResponse, if_pos h, hchar, Run.after_bind, Run.pure_bind,
    if_neg (by omega)]
  simp only [hindex]
  rfl

theorem getResponse_matched (i : ℕ) (reads : List SerialRead) (h : expected.length ≤ i) :
    getResponse expected i reads = pure 0 := by
  cases reads with
  | nil => rw [getResponse, if_neg (by omega)]
  | cons read reads => rw [getResponse, if_neg (by omega)]

/-- get_response reads as many characters as the matcher. -/
theorem getResponse_answered_iff (i : ℕ) (chars rest : List UInt8) :
    Answered (getResponse expected i (received (chars ++ rest))) chars ↔
      readUntil expected i (chars ++ rest) = some chars.length := by
  unfold Answered
  induction chars generalizing i with
  | nil =>
    by_cases h : i < expected.length
    · cases rest with
      | nil => simp [received, getResponse, readUntil, h]
      | cons c rest =>
        rw [List.nil_append, getResponse_cons expected i c rest h,
          readUntil_cons expected i c rest h]
        simp [charReads]
    · rw [getResponse_matched expected i _ (by omega), readUntil_matched expected i _ (by omega)]
      simp [charReads]
  | cons c chars ih =>
    by_cases h : i < expected.length
    · rw [List.cons_append, getResponse_cons expected i c _ h, readUntil_cons expected i c _ h]
      simpa [charReads] using ih (advance expected i c)
    · rw [getResponse_matched expected i _ (by omega), readUntil_matched expected i _ (by omega)]
      simp [charReads]

/-- get_response stops at the end of the first occurrence exactly if the characters
before it fall into failed attempts. -/
theorem answered_at_first_iff (pre stream : List UInt8)
    (h : FirstOccurrence expected pre stream) :
    Answered (getResponse expected 0 (received stream)) (pre ++ expected) ↔
      ∃ attempts : List (List UInt8),
        (∀ a ∈ attempts, FailedAttempt expected a) ∧ pre = attempts.flatten := by
  obtain ⟨post, rfl⟩ := h.occurs
  rw [getResponse_answered_iff, List.append_assoc, List.length_append]
  exact readUntil_occurrence_iff expected pre post

/-- The prompt "OK" after a line feed. -/
theorem answered_at_first_prompt :
    Answered (getResponse [0x4F, 0x4B] 0 (received [0x0A, 0x4F, 0x4B])) [0x0A, 0x4F, 0x4B] ↔
      ∃ attempts : List (List UInt8),
        (∀ a ∈ attempts, FailedAttempt [0x4F, 0x4B] a) ∧ [0x0A] = attempts.flatten := by
  refine answered_at_first_iff [0x4F, 0x4B] [0x0A] [0x0A, 0x4F, 0x4B] ⟨by decide, ?_⟩
  intro earlier h
  cases earlier with
  | nil => exact absurd h (by decide)
  | cons c earlier => simp

/-- The second 'O' breaks the match that the first one began, and is dropped. -/
theorem repeated_first_missed :
    ¬ ∀ expected pre stream : List UInt8, expected ≠ [] → FirstOccurrence expected pre stream →
      Answered (getResponse expected 0 (received stream)) (pre ++ expected) := by
  intro h
  have hmatch := h [0x4F, 0x4B] [0x4F] [0x4F, 0x4F, 0x4B] (by decide) ⟨by decide, ?_⟩
  · exact absurd hmatch.2 (by decide)
  · intro earlier h
    cases earlier with
    | nil => exact absurd h (by decide)
    | cons c earlier => simp

end OmapBootUtils.ResponseMatch
