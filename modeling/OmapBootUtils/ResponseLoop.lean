import OmapBootUtils.ResponseMatch
import Mathlib.Data.List.TakeWhile

/-!
The loop of get_response over whatever its s_getc returns. Up to the first error
it is the matcher that drops a character which breaks a match; an error before
the match ends the loop, and one behind it is never read.
-/
namespace OmapBootUtils.ResponseLoop

open ScriptedRun LinkCalls SerialPort SerialApps ResetMatcher

/-- get_response on a sequence of results from which s_getc makes its return values; the
log has the results that were read. -/
def getResponseOn {ρ : Type} (getc : ρ → ℤ) (expected : List UInt8) : ℕ → List ρ → Run ρ ℤ
  | matchIdx, [] => if matchIdx < expected.length then Run.block else return 0
  | matchIdx, r :: results =>
      if matchIdx < expected.length then do
        Run.emit r
        let ret := getc r
        if ret < 0 then return ret else
        let currentChar := UInt8.ofNat ret.toNat
        let matchIdx := if currentChar = expected.getD matchIdx 0 then matchIdx + 1 else 0
        getResponseOn getc expected matchIdx results
      else return 0

section Loop
variable {ρ : Type} (getc : ρ → ℤ) (expected : List UInt8)

/-- The character get_response takes from a result. -/
def charOf (r : ρ) : UInt8 := UInt8.ofNat (getc r).toNat

/-- The results before the first error. -/
def beforeError (results : List ρ) : List ρ := results.takeWhile fun r => decide (0 ≤ getc r)

theorem getResponseOn_matched (i : ℕ) (results : List ρ) (h : expected.length ≤ i) :
    getResponseOn getc expected i results = pure 0 := by
  cases results with
  | nil => rw [getResponseOn, if_neg (Nat.not_lt.mpr h)]
  | cons r results => rw [getResponseOn, if_neg (Nat.not_lt.mpr h)]

theorem getResponseOn_cons (i : ℕ) (r : ρ) (results : List ρ) (h : i < expected.length)
    (hr : 0 ≤ getc r) :
    getResponseOn getc expected i (r :: results) = Run.after [r]
      (getResponseOn getc expected (advance expected i (charOf getc r)) results) := by
  have hindex : (if charOf getc r = expected.getD i 0 then i + 1 else 0) =
      advance expected i (charOf getc r) := by
    rw [advance, List.getD_eq_getElem?_getD, List.getElem?_eq_getElem h, Option.getD_some]
    simp only [Option.some.injEq, eq_comm]
  rw [getResponseOn, if_pos h, Run.emit_bind, if_neg (Int.not_lt.mpr hr), ← hindex]
  rfl

theorem getResponseOn_error (i : ℕ) (r : ρ) (results : List ρ) (h : i < expected.length)
    (hr : getc r < 0) :
    getResponseOn getc expected i (r :: results) = ⟨[r], .done (getc r)⟩ := by
  rw [getResponseOn, if_pos h, Run.emit_bind, if_pos hr]
  rfl

/-- A match in the results without an error ends the loop. -/
theorem getResponseOn_some (i n : ℕ) (good rest : List ρ) (hgood : ∀ r ∈ good, 0 ≤ getc r)
    (h : readUntil expected i (good.map (charOf getc)) = some n) :
    getResponseOn getc expected i (good ++ rest) = ⟨good.take n, .done 0⟩ := by
  induction good generalizing i n with
  | nil =>
    rw [List.map_nil, readUntil] at h
    split at h
    · cases h
    · next hmatched =>
      rw [getResponseOn_matched getc expected i _ (Nat.not_lt.mp hmatched), List.take_nil]
      rfl
  | cons r good ih =>
    rw [List.map_cons] at h
    by_cases hlt : i < expected.length
    · rw [readUntil_cons expected i _ _ hlt, Option.map_eq_some_iff] at h
      obtain ⟨m, hm, rfl⟩ := h
      rw [List.cons_append, getResponseOn_cons getc expected i r _ hlt (hgood r (by simp)),
        ih _ m (fun q hq => hgood q (List.mem_cons_of_mem _ hq)) hm]
      rfl
    · have hmatched := Nat.not_lt.mp hlt
      rw [readUntil_matched expected i _ hmatched] at h
      cases h
      rw [getResponseOn_matched getc expected i _ hmatched, List.take_zero]
      rfl

/-- Without one, the loop goes on with the index it has reached. -/
theorem getResponseOn_none (i : ℕ) (good rest : List ρ) (hgood : ∀ r ∈ good, 0 ≤ getc r)
    (h : readUntil expected i (good.map (charOf getc)) = none) :
    getResponseOn getc expected i (good ++ rest) = Run.after good
      (getResponseOn getc expected (position expected i (good.map (charOf getc))) rest) := by
  induction good generalizing i with
  | nil => rfl
  | cons r good ih =>
    have hlt : i < expected.length := by
      by_contra hge
      rw [readUntil_matched expected i _ (Nat.not_lt.mp hge)] at h
      cases h
    rw [List.map_cons, readUntil_cons expected i _ _ hlt, Option.map_eq_none_iff] at h
    rw [List.cons_append, getResponseOn_cons getc expected i r _ hlt (hgood r (by simp)),
      ih _ (fun q hq => hgood q (List.mem_cons_of_mem _ hq)) h, Run.after_after]
    rfl

theorem beforeError_good (results : List ρ) : ∀ r ∈ beforeError getc results, 0 ≤ getc r := by
  intro r hr
  have htrue := List.mem_takeWhile_imp hr
  exact of_decide_eq_true htrue

theorem getc_firstError (results : List ρ) (bad : ρ) (rest : List ρ)
    (h : results.dropWhile (fun r => decide (0 ≤ getc r)) = bad :: rest) : getc bad < 0 := by
  have hne : results.dropWhile (fun r => decide (0 ≤ getc r)) ≠ [] := by simp [h]
  have hfirst := List.head_dropWhile_not (fun r => decide (0 ≤ getc r)) hne
  simp only [h, List.head_cons, decide_eq_false_iff_not] at hfirst
  exact Int.not_le.mp hfirst

/-- The loop ends with a match before the first error, or else with that error. -/
theorem getResponseOn_eq (results : List ρ) :
    getResponseOn getc expected 0 results =
      match readUntil expected 0 ((beforeError getc results).map (charOf getc)) with
      | some n => ⟨(beforeError getc results).take n, .done 0⟩
      | none => match results.dropWhile fun r => decide (0 ≤ getc r) with
        | [] => ⟨beforeError getc results, .waiting⟩
        | bad :: _ => ⟨beforeError getc results ++ [bad], .done (getc bad)⟩ := by
  have hgood := beforeError_good getc results
  have hsplit : beforeError getc results ++ results.dropWhile (fun r => decide (0 ≤ getc r)) =
      results := List.takeWhile_append_dropWhile
  conv_lhs => rw [← hsplit]
  cases hread : readUntil expected 0 ((beforeError getc results).map (charOf getc)) with
  | some n => exact getResponseOn_some getc expected 0 n _ _ hgood hread
  | none =>
    have hlt := position_lt expected 0 _ hread
    rw [getResponseOn_none getc expected 0 _ _ hgood hread]
    cases hrest : results.dropWhile fun r => decide (0 ≤ getc r) with
    | nil =>
      rw [getResponseOn, if_pos hlt]
      simp [Run.after, Run.block]
    | cons bad rest =>
      have hbad := getc_firstError getc results bad rest hrest
      rw [getResponseOn_error getc expected _ bad rest hlt hbad]
      rfl

/-- Status 0 means that the results read are free of errors and end in the string. -/
theorem response_sound (results : List ρ)
    (h : (getResponseOn getc expected 0 results).status = .done 0) :
    (getResponseOn getc expected 0 results).log <+: results ∧
      (∀ r ∈ (getResponseOn getc expected 0 results).log, 0 ≤ getc r) ∧
      expected <:+ (getResponseOn getc expected 0 results).log.map (charOf getc) := by
  rw [getResponseOn_eq] at h ⊢
  cases hread : readUntil expected 0 ((beforeError getc results).map (charOf getc)) with
  | some n =>
    have hsuffix := readUntil_sound expected 0 n [] _ hread List.nil_suffix
    rw [List.nil_append, ← List.map_take] at hsuffix
    refine ⟨(List.take_prefix n _).trans (List.takeWhile_prefix _), ?_, hsuffix⟩
    intro r hr
    exact beforeError_good getc results r (List.mem_of_mem_take hr)
  | none =>
    rw [hread] at h
    cases hrest : results.dropWhile fun r => decide (0 ≤ getc r) with
    | nil => simp [hrest] at h
    | cons bad rest =>
      have hbad := getc_firstError getc results bad rest hrest
      simp only [hrest, Status.done.injEq] at h
      omega

end Loop

/-- An answer that follows a line feed. -/
theorem response_sound_ok :
    (getResponseOn id [0x4F, 0x4B] 0 [10, 79, 75, 13]).log <+: [10, 79, 75, 13] ∧
      (∀ r ∈ (getResponseOn id [0x4F, 0x4B] 0 [10, 79, 75, 13]).log, 0 ≤ id r) ∧
      [0x4F, 0x4B] <:+
        (getResponseOn id [0x4F, 0x4B] 0 [10, 79, 75, 13]).log.map (charOf id) :=
  response_sound id [0x4F, 0x4B] [10, 79, 75, 13] (by decide)

/-! ### The POSIX backend -/

/-- The return value of s_getc; x is 0 before the read. -/
def posixGetc (read : SerialRead) : ℤ :=
  if readRet (read.map (List.take 1)) < 0 then readRet (read.map (List.take 1))
  else (((read.map (List.take 1)).getD []).headD 0).toNat

/-- The call of s_read that s_getc makes. -/
def getcCall (read : SerialRead) : LinkCall := .sRead 1 ((read.map (List.take 1)).getD [])

/-- On a port, get_response is the loop over what read gives s_getc. -/
theorem getResponse_eq (expected : List UInt8) (i : ℕ) (reads : List SerialRead) :
    (getResponse expected i reads).status =
        (getResponseOn posixGetc expected i reads).status ∧
      (getResponse expected i reads).log =
        (getResponseOn posixGetc expected i reads).log.map getcCall := by
  induction reads generalizing i with
  | nil =>
    rw [getResponse, getResponseOn]
    split <;> exact ⟨rfl, rfl⟩
  | cons read reads ih =>
    have hgetc : sGetc read = Run.after [getcCall read] (pure (posixGetc read)) := rfl
    rw [getResponse, getResponseOn, hgetc]
    by_cases hlt : i < expected.length
    · rw [if_pos hlt, if_pos hlt, Run.after_bind, Run.pure_bind, Run.emit_bind]
      by_cases herror : posixGetc read < 0
      · rw [if_pos herror, if_pos herror]
        exact ⟨rfl, rfl⟩
      · rw [if_neg herror, if_neg herror]
        obtain ⟨hstatus, hlog⟩ := ih (if UInt8.ofNat (posixGetc read).toNat = expected.getD i 0
          then i + 1 else 0)
        exact ⟨hstatus, congrArg (getcCall read :: ·) hlog⟩
    · rw [if_neg hlt, if_neg hlt]
      exact ⟨rfl, rfl⟩

end OmapBootUtils.ResponseLoop
