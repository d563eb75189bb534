import OmapBootUtils.PosixSerial
import OmapBootUtils.ResponseLoop

/-!
What the s_getc of the two backends makes of get_response. That of the POSIX backend
drops the count of its read, so a read of nothing is a NUL that was never received;
that of the win32 backend widens a signed character, so a byte from 0x80 on is an
error.
-/
namespace OmapBootUtils.SerialGetc

open ScriptedRun LinkCalls SerialPort KermitPacket ResetMatcher ResponseMatch ResponseLoop

section Settled
variable {ρ : Type} (getc : ρ → ℤ) (expected : List UInt8)

/-- There is an error among the results, or the string after failed attempts. -/
def Settled (results : List ρ) : Prop :=
  (∃ r ∈ results, getc r < 0) ∨
    ∃ attempts : List (List UInt8), (∀ a ∈ attempts, FailedAttempt expected a) ∧
      attempts.flatten ++ expected <+: results.map (charOf getc)

theorem not_settled_iff (results : List ρ) :
    ¬ Settled getc expected results ↔
      (∀ r ∈ results, 0 ≤ getc r) ∧ readUntil expected 0 (results.map (charOf getc)) = none := by
  constructor
  · intro h
    constructor
    · intro r hr
      by_contra herror
      exact h (Or.inl ⟨r, hr, Int.not_le.mp herror⟩)
    · by_contra hread
      obtain ⟨n, hn⟩ := Option.ne_none_iff_exists'.mp hread
      obtain ⟨attempts, hattempts, hprefix, _⟩ := (readUntil_some_iff expected n _).mp hn
      exact h (Or.inr ⟨attempts, hattempts, hprefix⟩)
  · rintro ⟨hgood, hread⟩ (⟨r, hr, herror⟩ | ⟨attempts, hattempts, hprefix⟩)
    · exact absurd (hgood r hr) (Int.not_le.mpr herror)
    · rw [(readUntil_some_iff expected _ _).mpr ⟨attempts, hattempts, hprefix, rfl⟩] at hread
      cases hread

/-- What comes after results that have not settled is read with the index reached. -/
theorem getResponseOn_open (results later : List ρ) (h : ¬ Settled getc expected results) :
    getResponseOn getc expected 0 (results ++ later) = Run.after results
      (getResponseOn getc expected (position expected 0 (results.map (charOf getc))) later) := by
  obtain ⟨hgood, hread⟩ := (not_settled_iff getc expected results).mp h
  exact getResponseOn_none getc expected 0 results later hgood hread

/-- The loop has returned exactly if the results have settled. -/
theorem waiting_iff (results : List ρ) :
    (getResponseOn getc expected 0 results).status = .waiting ↔
      ¬ Settled getc expected results := by
  constructor
  · intro h
    rw [getResponseOn_eq] at h
    rw [not_settled_iff]
    cases hread : readUntil expected 0 ((beforeError getc results).map (charOf getc)) with
    | some n => simp [hread] at h
    | none =>
      cases hrest : results.dropWhile fun r => decide (0 ≤ getc r) with
      | cons bad rest => simp [hread, hrest] at h
      | nil =>
        have hall : beforeError getc results = results := by
          have hsplit : beforeError getc results ++
              results.dropWhile (fun r => decide (0 ≤ getc r)) = results :=
            List.takeWhile_append_dropWhile
          rwa [hrest, List.append_nil] at hsplit
        have hgood := beforeError_good getc results
        rw [hall] at hread hgood
        exact ⟨hgood, hread⟩
  · intro h
    have hlt := position_lt expected 0 _ ((not_settled_iff getc expected results).mp h).2
    have hopen := getResponseOn_open getc expected results [] h
    rw [List.append_nil] at hopen
    rw [hopen, getResponseOn, if_pos hlt]
    rfl

theorem getResponseOn_append (i : ℕ) (results later : List ρ)
    (h : (getResponseOn getc expected i results).status ≠ .waiting) :
    getResponseOn getc expected i (results ++ later) = getResponseOn getc expected i results := by
  induction results generalizing i with
  | nil =>
    rw [getResponseOn] at h
    split at h
    · exact absurd rfl h
    · next hmatched =>
      rw [List.nil_append, getResponseOn_matched _ _ _ _ (Nat.not_lt.mp hmatched),
        getResponseOn_matched _ _ _ _ (Nat.not_lt.mp hmatched)]
  | cons r results ih =>
    by_cases hlt : i < expected.length
    · by_cases herror : getc r < 0
      · rw [List.cons_append, getResponseOn_error _ _ _ _ _ hlt herror,
          getResponseOn_error _ _ _ _ _ hlt herror]
      · have hr := Int.not_lt.mp herror
        rw [getResponseOn_cons _ _ _ _ _ hlt hr] at h
        rw [List.cons_append, getResponseOn_cons _ _ _ _ _ hlt hr,
          getResponseOn_cons _ _ _ _ _ hlt hr, ih _ h]
    · rw [List.cons_append, getResponseOn_matched _ _ _ _ (Nat.not_lt.mp hlt),
        getResponseOn_matched _ _ _ _ (Nat.not_lt.mp hlt)]

/-- Without an error the loop returns 0 or not at all. -/
theorem getResponseOn_done (i : ℕ) (ret : ℤ) (results : List ρ)
    (hgood : ∀ r ∈ results, 0 ≤ getc r)
    (h : (getResponseOn getc expected i results).status = .done ret) : ret = 0 := by
  induction results generalizing i with
  | nil =>
    rw [getResponseOn] at h
    split at h <;> cases h
    rfl
  | cons r results ih =>
    by_cases hlt : i < expected.length
    · rw [getResponseOn_cons _ _ _ _ _ hlt (hgood r (by simp))] at h
      exact ih _ (fun q hq => hgood q (List.mem_cons_of_mem _ hq)) h
    · rw [getResponseOn_matched _ _ _ _ (Nat.not_lt.mp hlt)] at h
      cases h
      rfl

/-- Backends that return the same make the same of get_response. -/
theorem getResponseOn_congr (getc' : ρ → ℤ) (i : ℕ) (results : List ρ)
    (h : ∀ r ∈ results, getc r = getc' r) :
    getResponseOn getc expected i results = getResponseOn getc' expected i results := by
  induction results generalizing i with
  | nil => rfl
  | cons r results ih =>
    have hrest := fun i => ih i fun q hq => h q (List.mem_cons_of_mem _ hq)
    simp only [getResponseOn, h r (List.mem_cons_self ..), hrest]

theorem getResponseOn_defined (i : ℕ) (results : List ρ) :
    (getResponseOn getc expected i results).status ≠ .undefined := by
  induction results generalizing i with
  | nil =>
    rw [getResponseOn]
    split <;> exact fun h => by cases h
  | cons r results ih =>
    by_cases hlt : i < expected.length
    · by_cases herror : getc r < 0
      · rw [getResponseOn_error _ _ _ _ _ hlt herror]
        exact fun h => by cases h
      · rw [getResponseOn_cons _ _ _ _ _ hlt (Int.not_lt.mp herror)]
        exact ih _
    · rw [getResponseOn_matched _ _ _ _ (Nat.not_lt.mp hlt)]
      exact fun h => by cases h

/-- Once it has settled, the loop has returned and reads no more. -/
theorem Settled.append {results : List ρ} (h : Settled getc expected results) (later : List ρ) :
    getResponseOn getc expected 0 (results ++ later) =
      getResponseOn getc expected 0 results := by
  apply getResponseOn_append
  intro hwaiting
  exact (waiting_iff getc expected results).mp hwaiting h

end Settled

/-! ### Reads of nothing -/

/-- A read that delivers nothing: end of file, or a line that has hung up. -/
def noBytes : SerialRead := some []

/-- The reads that deliver something. -/
def deliveries (log : List SerialRead) : List SerialRead := log.filter fun read => read ≠ noBytes

/-- Both runs match the same delivered bytes and come to the same end. -/
structure SameMatch (x y : Run SerialRead ℤ) : Prop where
  status : x.status = y.status
  matched : deliveries x.log = deliveries y.log

section Zeros
variable (expected : List UInt8) (before : List SerialRead)

/-- Reads of nothing after these make no difference, whatever comes next. -/
def ZerosIgnored : Prop :=
  ∀ count after,
    SameMatch (getResponseOn posixGetc expected 0
        (before ++ (List.replicate count noBytes ++ after)))
      (getResponseOn posixGetc expected 0 (before ++ after))

/-- Reads of nothing for ever after these make the loop return. -/
def ZerosEnd : Prop :=
  ∃ count ret,
    (getResponseOn posixGetc expected 0 (before ++ List.replicate count noBytes)).status = .done ret

/-- No match is in progress after these reads: they are failed attempts. -/
def Idle : Prop :=
  ∃ attempts : List (List UInt8), (∀ a ∈ attempts, FailedAttempt expected a) ∧
    before.map (charOf posixGetc) = attempts.flatten

/-- The s_getc of the serial library on an open port. -/
theorem sGetc_ret (lib : PosixSerial.Lib) (r : PosixSerial.ReadResults) (h : lib.fd ≠ 0) :
    (PosixSerial.sGetc lib r).ret = posixGetc r.read := by
  have hread : (PosixSerial.sRead lib 1 r).ret = readRet (r.read.map (List.take 1)) := by
    rw [PosixSerial.sRead, if_neg h]
  simp only [PosixSerial.sGetc, posixGetc, hread]
  split
  · exact hread
  · rfl

theorem charOf_noBytes : charOf posixGetc noBytes = 0 := rfl

theorem posixGetc_char (c : UInt8) : posixGetc (some [c]) = c.toNat := by
  have hret : ¬ readRet ((some [c]).map (List.take 1)) < 0 := by simp [readRet]
  rw [posixGetc, if_neg hret]
  rfl

theorem received_chars (chars : List UInt8) :
    (received chars).map (charOf posixGetc) = chars ∧
      ∀ read ∈ received chars, 0 ≤ posixGetc read := by
  constructor
  · rw [received, List.map_map]
    apply List.map_id''
    intro c
    simp [charOf, posixGetc_char]
  · intro read hread
    obtain ⟨c, _, rfl⟩ := List.mem_map.mp hread
    rw [posixGetc_char]
    omega

/-- The rest of the string ends the match in progress. -/
theorem getResponseOn_rest (i : ℕ) (h : i ≤ expected.length) :
    (getResponseOn posixGetc expected i (received (expected.drop i))).status = .done 0 := by
  obtain ⟨hchars, hgood⟩ := received_chars (expected.drop i)
  have hread := readUntil_continue expected (expected.take i) (expected.drop i) [] [] (by simp)
  rw [List.length_take, Nat.min_eq_left h, List.append_nil, List.length_drop,
    Nat.add_sub_cancel' h, readUntil_matched expected _ _ (le_refl _)] at hread
  have hrun := getResponseOn_some posixGetc expected i _ _ [] hgood (by rw [hchars, hread]; rfl)
  rw [List.append_nil] at hrun
  rw [hrun]

/-- Fewer characters than the string has are no match. -/
theorem getResponseOn_short (chars : List UInt8) (h : chars.length < expected.length) :
    (getResponseOn posixGetc expected 0 (received chars)).status = .waiting := by
  obtain ⟨hchars, hgood⟩ := received_chars chars
  rw [waiting_iff, not_settled_iff, hchars]
  refine ⟨hgood, ?_⟩
  by_contra hread
  obtain ⟨n, hn⟩ := Option.ne_none_iff_exists'.mp hread
  have hbounds := readUntil_bounds expected 0 n chars hn
  omega

variable {expected}

theorem advance_nul (hnul : (0 : UInt8) ∉ expected) (i : ℕ) : advance expected i 0 = 0 := by
  rw [advance, if_neg]
  intro hat
  exact hnul (List.mem_of_getElem? hat)

/-- A read of nothing breaks the match in progress. -/
theorem getResponseOn_noBytes (hnul : (0 : UInt8) ∉ expected) (i : ℕ) (later : List SerialRead)
    (h : i < expected.length) :
    getResponseOn posixGetc expected i (noBytes :: later) =
      Run.after [noBytes] (getResponseOn posixGetc expected 0 later) := by
  rw [getResponseOn_cons posixGetc expected i noBytes later h (le_refl 0), charOf_noBytes,
    advance_nul hnul]

theorem getResponseOn_zeros (hnul : (0 : UInt8) ∉ expected) (hpos : 0 < expected.length)
    (count : ℕ) (later : List SerialRead) :
    getResponseOn posixGetc expected 0 (List.replicate count noBytes ++ later) =
      Run.after (List.replicate count noBytes) (getResponseOn posixGetc expected 0 later) := by
  induction count with
  | zero => rfl
  | succ count ih =>
    rw [List.replicate_succ, List.cons_append, getResponseOn_noBytes hnul 0 _ hpos, ih,
      Run.after_after]
    rfl

theorem deliveries_zeros (count : ℕ) : deliveries (List.replicate count noBytes) = [] := by
  apply List.filter_eq_nil_iff.mpr
  intro read hread
  simp [List.eq_of_mem_replicate hread]

theorem zerosIgnored_iff (hnul : (0 : UInt8) ∉ expected) :
    ZerosIgnored expected before ↔ Settled posixGetc expected before ∨ Idle expected before := by
  by_cases hsettled : Settled posixGetc expected before
  · refine iff_of_true ?_ (Or.inl hsettled)
    intro count after
    rw [hsettled.append, hsettled.append]
    exact ⟨rfl, rfl⟩
  · obtain ⟨_, hread⟩ := (not_settled_iff posixGetc expected before).mp hsettled
    have hlt := position_lt expected 0 _ hread
    have hpos : 0 < expected.length := Nat.zero_lt_of_lt hlt
    have hidle := idle_iff expected (List.length_pos_iff.mp hpos) (before.map (charOf posixGetc))
    rw [or_iff_right hsettled, Idle, ← hidle, and_iff_right hread]
    constructor
    · intro hignored
      -- one zero and the rest of the string: a match in progress is lost
      generalize hi : position expected 0 (before.map (charOf posixGetc)) = i at hlt ⊢
      have hsame := (hignored 1 (received (expected.drop i))).status
      rw [getResponseOn_open _ _ _ _ hsettled, getResponseOn_open _ _ _ _ hsettled, hi,
        List.replicate_one, List.singleton_append, getResponseOn_noBytes hnul i _ hlt,
        Run.after_status, Run.after_status, Run.after_status,
        getResponseOn_rest expected i hlt.le] at hsame
      by_contra hne
      rw [getResponseOn_short expected _ (by rw [List.length_drop]; omega)] at hsame
      cases hsame
    · intro hindex count after
      rw [getResponseOn_open _ _ _ _ hsettled, getResponseOn_open _ _ _ _ hsettled, hindex,
        getResponseOn_zeros hnul hpos, Run.after_after]
      refine ⟨rfl, ?_⟩
      simp only [Run.after_log, deliveries, List.filter_append]
      rw [← deliveries, ← deliveries, ← deliveries, deliveries_zeros, List.append_nil]

theorem zerosEnd_iff (hnul : (0 : UInt8) ∉ expected) :
    ZerosEnd expected before ↔ Settled posixGetc expected before := by
  constructor
  · rintro ⟨count, ret, hdone⟩
    by_contra hsettled
    obtain ⟨_, hread⟩ := (not_settled_iff posixGetc expected before).mp hsettled
    have hlt := position_lt expected 0 _ hread
    have hpos : 0 < expected.length := Nat.zero_lt_of_lt hlt
    rw [getResponseOn_open _ _ _ _ hsettled, Run.after_status] at hdone
    cases count with
    | zero =>
      rw [List.replicate_zero, getResponseOn, if_pos hlt] at hdone
      cases hdone
    | succ count =>
      have hzeros := getResponseOn_zeros hnul hpos count []
      rw [List.append_nil] at hzeros
      rw [List.replicate_succ, getResponseOn_noBytes hnul _ _ hlt, hzeros, Run.after_status,
        Run.after_status, getResponseOn, if_pos hpos] at hdone
      cases hdone
  · intro hsettled
    have hreturned : (getResponseOn posixGetc expected 0 before).status ≠ .waiting := by
      intro hwaiting
      exact (waiting_iff posixGetc expected before).mp hwaiting hsettled
    refine ⟨0, ?_⟩
    rw [List.replicate_zero, List.append_nil]
    cases hstatus : (getResponseOn posixGetc expected 0 before).status with
    | waiting => exact absurd hstatus hreturned
    | undefined => exact absurd hstatus (getResponseOn_defined posixGetc expected 0 before)
    | done ret => exact ⟨ret, rfl⟩

end Zeros

/-- Reads of nothing never change what is matched, and end the loop if there is nothing
else, exactly after an error or a match; the first alone also between two attempts. -/
theorem zeros_harmless_iff (expected : List UInt8) (hnul : (0 : UInt8) ∉ expected)
    (before : List SerialRead) :
    (ZerosIgnored expected before ∧ ZerosEnd expected before ↔
        Settled posixGetc expected before) ∧
      (ZerosIgnored expected before ↔
        Settled posixGetc expected before ∨ Idle expected before) ∧
      (ZerosEnd expected before ↔ Settled posixGetc expected before) := by
  rw [zerosIgnored_iff before hnul, zerosEnd_iff before hnul]
  refine ⟨?_, Iff.rfl, Iff.rfl⟩
  constructor
  · intro h
    exact h.2
  · intro h
    exact ⟨Or.inl h, h⟩

/-- A match in progress after a prompt. -/
theorem zeros_harmless_prompt :
    (ZerosIgnored [0x4F, 0x4B] [some [0x3E], some [0x4F]] ∧
          ZerosEnd [0x4F, 0x4B] [some [0x3E], some [0x4F]] ↔
        Settled posixGetc [0x4F, 0x4B] [some [0x3E], some [0x4F]]) ∧
      (ZerosIgnored [0x4F, 0x4B] [some [0x3E], some [0x4F]] ↔
        Settled posixGetc [0x4F, 0x4B] [some [0x3E], some [0x4F]] ∨
          Idle [0x4F, 0x4B] [some [0x3E], some [0x4F]]) ∧
      (ZerosEnd [0x4F, 0x4B] [some [0x3E], some [0x4F]] ↔
        Settled posixGetc [0x4F, 0x4B] [some [0x3E], some [0x4F]]) :=
  zeros_harmless_iff [0x4F, 0x4B] (by decide) [some [0x3E], some [0x4F]]

/-- A read of nothing between the two letters of the string. -/
theorem zero_breaks_match :
    ¬ ∀ expected before, expected ≠ [] → (0 : UInt8) ∉ expected →
      ZerosIgnored expected before ∧ ZerosEnd expected before := by
  intro h
  have hignored := (h [0x4F, 0x4B] [some [0x4F]] (by decide) (by decide)).1
  exact absurd (hignored 1 [some [0x4B]]).status (by decide)

/-! ### Signed characters -/

/-- The return value of the win32 s_getc, whose x is a signed char. -/
def win32Getc (read : SerialRead) : ℤ :=
  if readRet (read.map (List.take 1)) < 0 then readRet (read.map (List.take 1))
  else charValue true (((read.map (List.take 1)).getD []).headD 0)

theorem win32Getc_char (c : UInt8) : win32Getc (some [c]) = charValue true c := by
  have hret : ¬ readRet ((some [c]).map (List.take 1)) < 0 := by simp [readRet]
  rw [win32Getc, if_neg hret]
  rfl

theorem win32Getc_high (c : UInt8) (h : ¬ c < 0x80) : win32Getc (some [c]) < 0 := by
  have hhigh : 128 ≤ c.toNat := by
    rw [UInt8.lt_iff_toNat_lt] at h
    exact Nat.not_lt.mp h
  have hbyte : c.toNat < 256 := c.toNat_lt
  rw [win32Getc_char, charValue, if_pos ⟨rfl, hhigh⟩]
  omega

/-- Below 0x80 both backends return the same. -/
theorem win32Getc_low (c : UInt8) (h : c < 0x80) :
    win32Getc (some [c]) = posixGetc (some [c]) := by
  have hlow : ¬ (true = true ∧ 128 ≤ c.toNat) := by
    rw [UInt8.lt_iff_toNat_lt] at h
    exact fun hhigh => absurd h (Nat.not_lt.mpr hhigh.2)
  rw [win32Getc_char, posixGetc_char, charValue, if_neg hlow]

/-- The bytes before the first that is not ASCII. -/
def asciiPart (stream : List UInt8) : List UInt8 := stream.takeWhile fun c => decide (c < 0x80)

theorem asciiPart_low (stream : List UInt8) : ∀ c ∈ asciiPart stream, c < 0x80 := by
  intro c hc
  have htrue := List.mem_takeWhile_imp hc
  exact of_decide_eq_true htrue

theorem backends_ascii (expected : List UInt8) (stream : List UInt8) :
    getResponseOn win32Getc expected 0 (received (asciiPart stream)) =
      getResponseOn posixGetc expected 0 (received (asciiPart stream)) := by
  apply getResponseOn_congr
  intro read hread
  obtain ⟨c, hc, rfl⟩ := List.mem_map.mp hread
  exact win32Getc_low c (asciiPart_low stream c hc)

theorem received_append (s t : List UInt8) : received (s ++ t) = received s ++ received t :=
  List.map_append

theorem settled_ascii_iff (expected stream : List UInt8) :
    Settled posixGetc expected (received (asciiPart stream)) ↔
      ∃ attempts : List (List UInt8), (∀ a ∈ attempts, FailedAttempt expected a) ∧
        attempts.flatten ++ expected <+: asciiPart stream := by
  obtain ⟨hchars, hgood⟩ := received_chars (asciiPart stream)
  have herrors : ¬ ∃ r ∈ received (asciiPart stream), posixGetc r < 0 := by
    intro h
    obtain ⟨r, hr, herror⟩ := h
    exact absurd (hgood r hr) (Int.not_le.mpr herror)
  rw [Settled, hchars, or_iff_right herrors]

/-- A match among the ASCII bytes ends the loop on both backends. -/
theorem backends_settled (expected low rest : List UInt8)
    (hascii : getResponseOn win32Getc expected 0 (received low) =
      getResponseOn posixGetc expected 0 (received low))
    (h : Settled posixGetc expected (received low)) :
    getResponseOn win32Getc expected 0 (received (low ++ rest)) =
      getResponseOn posixGetc expected 0 (received (low ++ rest)) := by
  have hdone : (getResponseOn win32Getc expected 0 (received low)).status ≠ .waiting := by
    rw [hascii]
    intro hwaiting
    exact (waiting_iff _ _ _).mp hwaiting h
  rw [received_append, h.append, getResponseOn_append _ _ _ _ _ hdone, hascii]

/-- A byte that is not ASCII is an error on the win32 backend only. -/
theorem backends_high (expected low rest : List UInt8) (c : UInt8) (hc : ¬ c < 0x80)
    (hascii : getResponseOn win32Getc expected 0 (received low) =
      getResponseOn posixGetc expected 0 (received low))
    (h : ¬ Settled posixGetc expected (received low)) :
    getResponseOn win32Getc expected 0 (received (low ++ c :: rest)) ≠
      getResponseOn posixGetc expected 0 (received (low ++ c :: rest)) := by
  have hnegative := win32Getc_high c hc
  have hopen : ¬ Settled win32Getc expected (received low) := by
    rw [← waiting_iff, hascii, waiting_iff]
    exact h
  have hlt := position_lt expected 0 _ ((not_settled_iff _ _ _).mp hopen).2
  have hwin32 : (getResponseOn win32Getc expected 0 (received (low ++ c :: rest))).status =
      .done (win32Getc (some [c])) := by
    have hnext : received (c :: rest) = some [c] :: received rest := rfl
    rw [received_append, getResponseOn_open _ _ _ _ hopen, hnext,
      getResponseOn_error _ _ _ _ _ hlt hnegative]
    rfl
  intro heq
  rw [heq] at hwin32
  have hzero := getResponseOn_done _ _ _ _ _ (received_chars (low ++ c :: rest)).2 hwin32
  omega

theorem not_ascii_of_dropWhile (stream : List UInt8) (c : UInt8) (rest : List UInt8)
    (h : stream.dropWhile (fun c => decide (c < 0x80)) = c :: rest) : ¬ c < 0x80 := by
  have hne : stream.dropWhile (fun c => decide (c < 0x80)) ≠ [] := by simp [h]
  have hfirst := List.head_dropWhile_not (fun c => decide (c < 0x80)) hne
  simpa [h] using hfirst

/-- get_response ends alike after as many bytes on both backends exactly if all bytes are
ASCII, or the string comes, after failed attempts, before the first that is not. -/
theorem backends_agree_iff (expected stream : List UInt8) :
    getResponseOn win32Getc expected 0 (received stream) =
        getResponseOn posixGetc expected 0 (received stream) ↔
      (∀ c ∈ stream, c < 0x80) ∨
        ∃ attempts : List (List UInt8), (∀ a ∈ attempts, FailedAttempt expected a) ∧
          attempts.flatten ++ expected <+: stream.takeWhile fun c => decide (c < 0x80) := by
  have hascii := backends_ascii expected stream
  have hfound := settled_ascii_iff expected stream
  have hsplit : asciiPart stream ++ stream.dropWhile (fun c => decide (c < 0x80)) = stream :=
    List.takeWhile_append_dropWhile
  by_cases hsettled : Settled posixGetc expected (received (asciiPart stream))
  · apply iff_of_true _ (Or.inr (hfound.mp hsettled))
    have hsame := backends_settled expected _
      (stream.dropWhile fun c => decide (c < 0x80)) hascii hsettled
    rwa [hsplit] at hsame
  · cases hrest : stream.dropWhile fun c => decide (c < 0x80) with
    | nil =>
      rw [hrest, List.append_nil] at hsplit
      rw [hsplit] at hascii
      apply iff_of_true hascii (Or.inl _)
      intro c hc
      rw [← hsplit] at hc
      exact asciiPart_low stream c hc
    | cons c rest =>
      have hhigh := not_ascii_of_dropWhile stream c rest hrest
      rw [hrest] at hsplit
      apply iff_of_false
      · have hdiffer := backends_high expected _ rest c hhigh hascii hsettled
        rwa [hsplit] at hdiffer
      · intro h
        cases h with
        | inl hall =>
          have hmem : c ∈ asciiPart stream ++ c :: rest :=
            List.mem_append_right _ (List.mem_cons_self ..)
          rw [hsplit] at hmem
          exact hhigh (hall c hmem)
        | inr hmatch => exact hsettled (hfound.mpr hmatch)

/-- The byte 0xFF before an answer. -/
theorem high_byte_tells :
    ¬ ∀ expected stream : List UInt8,
      getResponseOn win32Getc expected 0 (received stream) =
        getResponseOn posixGetc expected 0 (received stream) := by
  intro h
  have hstatus := congrArg Run.status (h [0x4F, 0x4B] [0xFF, 0x4F, 0x4B])
  exact absurd hstatus (by decide)

end OmapBootUtils.SerialGetc
