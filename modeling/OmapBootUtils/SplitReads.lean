import OmapBootUtils.SerialPort

/-!
s_read of the two backends on bytes that arrive in pieces. A read takes bytes of the
first arrival only, and what it leaves of it comes first the next time. The POSIX
backend reads once, the win32 backend until it has all bytes asked for.
-/
namespace OmapBootUtils.SplitReads

open ScriptedRun LinkCalls SerialPort

/-- The bytes still to be read; those of one arrival can be read together. -/
abbrev Arrivals := List (List UInt8)

/-- What a call of s_read returns and the bytes it put in the buffer. -/
structure ReadResult where
  ret : ℤ
  buffer : List UInt8
  deriving DecidableEq, Repr

/-- The arrivals once `size` bytes of the first have been read. -/
def leftOver (size : ℕ) (arrival : List UInt8) (later : Arrivals) : Arrivals :=
  if arrival.drop size = [] then later else arrival.drop size :: later

/-! ### The two backends -/

/-- s_read of the POSIX backend: one read, whose count is returned. -/
def posixRead (size : ℕ) (arrivals : Arrivals) : Option (ReadResult × Arrivals) :=
  if size = 0 then some (⟨0, []⟩, arrivals) else
  match arrivals with
  | [] => none
  | arrival :: later =>
      let got := arrival.take size
      some (⟨readRet (some got), got⟩, leftOver size arrival later)

def rxHwBufSize : ℕ := 8096 * 2

/-- The loop of ReadFile calls in the win32 s_read. -/
def readFileLoop : ℕ → List UInt8 → Arrivals → Option (List UInt8 × Arrivals)
  | _, _, [] => none
  | sizeToRead, buffer, arrival :: later =>
      let got := arrival.take sizeToRead
      if 0 < sizeToRead - got.length then
        readFileLoop (sizeToRead - got.length) (buffer ++ got) later
      else some (buffer ++ got, leftOver sizeToRead arrival later)

/-- s_read of the win32 backend on an open port. -/
def win32Read (size : ℕ) (arrivals : Arrivals) : Option (ReadResult × Arrivals) :=
  if size = 0 then some (⟨serialOk, []⟩, arrivals)
  else if rxHwBufSize ≤ size then some (⟨serialFailed, []⟩, arrivals)
  else (readFileLoop size [] arrivals).map fun r => (⟨r.1.length, r.1⟩, r.2)

/-- What a caller gets that asks for these sizes, up to the call that waits for more. -/
def readAll (sRead : ℕ → Arrivals → Option (ReadResult × Arrivals)) :
    List ℕ → Arrivals → List ReadResult
  | [], _ => []
  | size :: sizes, arrivals =>
      match sRead size arrivals with
      | none => []
      | some (result, arrivals) => result :: readAll sRead sizes arrivals

section Calls
variable (size : ℕ) (arrival : List UInt8) (arrivals later : Arrivals)

theorem posixRead_zero : posixRead 0 arrivals = some (⟨0, []⟩, arrivals) := by
  cases arrivals <;> rfl

theorem posixRead_waits (h : 0 < size) : posixRead size [] = none := by
  rw [posixRead, if_neg (Nat.ne_of_gt h)]

theorem posixRead_arrival (h : 0 < size) :
    posixRead size (arrival :: later) =
      some (⟨(arrival.take size).length, arrival.take size⟩, leftOver size arrival later) := by
  rw [posixRead, if_neg (Nat.ne_of_gt h)]
  rfl

/-- The read of a port in the models of the tools. -/
theorem posixRead_sRead (h : 0 < size) :
    ∃ got, (sRead size (some arrival)).status = .done got ∧
      posixRead size (arrival :: later) =
        some (⟨readRet got, got.getD []⟩, leftOver size arrival later) :=
  ⟨some (arrival.take size), rfl, posixRead_arrival size arrival later h⟩

theorem win32Read_zero : win32Read 0 arrivals = some (⟨0, []⟩, arrivals) := rfl

theorem win32Read_large (h : rxHwBufSize ≤ size) :
    win32Read size arrivals = some (⟨serialFailed, []⟩, arrivals) := by
  have hpos : size ≠ 0 := by
    have hbuf : rxHwBufSize = 16192 := rfl
    omega
  rw [win32Read, if_neg hpos, if_pos h]

theorem win32Read_waits (h : 0 < size) (hsmall : size < rxHwBufSize) :
    win32Read size [] = none := by
  rw [win32Read, if_neg (Nat.ne_of_gt h), if_neg (Nat.not_le.mpr hsmall)]
  rfl

/-- An arrival with all bytes asked for is enough for one ReadFile. -/
theorem win32Read_covered (h : 0 < size) (hsmall : size < rxHwBufSize)
    (hcovers : size ≤ arrival.length) :
    win32Read size (arrival :: later) = posixRead size (arrival :: later) := by
  have hlen : (arrival.take size).length = size := by
    rw [List.length_take, Nat.min_eq_left hcovers]
  rw [posixRead_arrival size arrival later h, win32Read, if_neg (Nat.ne_of_gt h),
    if_neg (Nat.not_le.mpr hsmall), readFileLoop]
  simp only [hlen, Nat.sub_self, lt_irrefl, if_false, List.nil_append, Option.map_some]

theorem leftOver_flatten :
    arrival.take size ++ (leftOver size arrival later).flatten =
      (arrival :: later).flatten := by
  rw [leftOver]
  split
  · next hnone =>
    conv_rhs => rw [List.flatten_cons, ← List.take_append_drop size arrival, hnone,
      List.append_nil]
  · rw [List.flatten_cons, ← List.append_assoc, List.take_append_drop, List.flatten_cons]

end Calls

/-! ### Whole chunks -/

/-- What calls return that have all bytes asked for, or an error. -/
def Exact (sizes : List ℕ) (results : List ReadResult) : Prop :=
  ∀ p ∈ sizes.zip results, p.2.ret = serialFailed ∨ p.2.ret = p.1 ∧ p.2.buffer.length = p.1

/-- The calls of the POSIX backend return all bytes asked for or an error, in their order,
and those of the win32 backend return the same. -/
structure ReadsWhole (sizes : List ℕ) (arrivals : Arrivals) : Prop where
  exact : Exact sizes (readAll posixRead sizes arrivals)
  inOrder : ((readAll posixRead sizes arrivals).map ReadResult.buffer).flatten <+: arrivals.flatten
  same : readAll posixRead sizes arrivals = readAll win32Read sizes arrivals

/-- No call asks for more than is left of the arrival it reads from, nor for as much as the
buffer of the win32 driver holds. -/
def Covered : List ℕ → Arrivals → Prop
  | [], _ => True
  | size :: sizes, arrivals =>
      size < rxHwBufSize ∧
        if size = 0 then Covered sizes arrivals else
        match arrivals with
        | [] => True
        | arrival :: later => size ≤ arrival.length ∧ Covered sizes (leftOver size arrival later)

theorem covered_zero (sizes : List ℕ) (arrivals : Arrivals) :
    Covered (0 :: sizes) arrivals ↔ Covered sizes arrivals := by
  have hbuf : 0 < rxHwBufSize := by decide
  cases arrivals <;> simp [Covered, hbuf]

theorem covered_waits (size : ℕ) (sizes : List ℕ) (h : 0 < size) :
    Covered (size :: sizes) [] ↔ size < rxHwBufSize := by
  simp [Covered, Nat.ne_of_gt h]

theorem covered_arrival (size : ℕ) (sizes : List ℕ) (arrival : List UInt8) (later : Arrivals)
    (h : 0 < size) :
    Covered (size :: sizes) (arrival :: later) ↔ size < rxHwBufSize ∧
      size ≤ arrival.length ∧ Covered sizes (leftOver size arrival later) := by
  simp [Covered, Nat.ne_of_gt h]

/-- Whatever is returned, no byte is lost or comes twice. -/
theorem posixRead_inOrder (sizes : List ℕ) (arrivals : Arrivals) :
    ((readAll posixRead sizes arrivals).map ReadResult.buffer).flatten <+: arrivals.flatten := by
  induction sizes generalizing arrivals with
  | nil => exact List.nil_prefix
  | cons size sizes ih =>
    rw [readAll]
    rcases Nat.eq_zero_or_pos size with rfl | hpos
    · rw [posixRead_zero]
      exact ih arrivals
    · cases arrivals with
      | nil =>
        rw [posixRead_waits size hpos]
        exact List.nil_prefix
      | cons arrival later =>
        rw [posixRead_arrival size arrival later hpos, ← leftOver_flatten size arrival later]
        exact (List.prefix_append_right_inj _).mpr (ih _)

theorem exact_cons (size : ℕ) (sizes : List ℕ) (result : ReadResult) (results : List ReadResult) :
    Exact (size :: sizes) (result :: results) ↔
      (result.ret = serialFailed ∨ result.ret = size ∧ result.buffer.length = size) ∧
        Exact sizes results := by
  rw [Exact, List.zip_cons_cons, List.forall_mem_cons]
  rfl

/-- A request beyond the arrival comes back short. -/
theorem not_exact_of_short (size : ℕ) (sizes : List ℕ) (arrival : List UInt8)
    (later : Arrivals) (hpos : 0 < size) (hshort : arrival.length < size) :
    ¬ Exact (size :: sizes) (readAll posixRead (size :: sizes) (arrival :: later)) := by
  intro h
  rw [readAll, posixRead_arrival size arrival later hpos] at h
  simp only [exact_cons, List.length_take, serialFailed] at h
  omega

/-- A request as large as the buffer of the win32 driver is refused there only. -/
theorem not_same_of_large (size : ℕ) (sizes : List ℕ) (arrivals : Arrivals)
    (hlarge : rxHwBufSize ≤ size) :
    readAll posixRead (size :: sizes) arrivals ≠ readAll win32Read (size :: sizes) arrivals := by
  have hpos : 0 < size := by
    have hbuf : rxHwBufSize = 16192 := rfl
    omega
  intro h
  rw [readAll, readAll, win32Read_large size arrivals hlarge] at h
  cases arrivals with
  | nil =>
    rw [posixRead_waits size hpos] at h
    cases h
  | cons arrival later =>
    rw [posixRead_arrival size arrival later hpos] at h
    have hret := congrArg ReadResult.ret (List.cons.inj h).1
    have hfailed : serialFailed = -1 := rfl
    dsimp only at hret
    omega

theorem exact_same_iff (sizes : List ℕ) (arrivals : Arrivals) :
    (Exact sizes (readAll posixRead sizes arrivals) ∧
        readAll posixRead sizes arrivals = readAll win32Read sizes arrivals) ↔
      Covered sizes arrivals := by
  induction sizes generalizing arrivals with
  | nil => simp [Covered, Exact, readAll]
  | cons size sizes ih =>
    by_cases hsmall : size < rxHwBufSize
    · cases Nat.eq_zero_or_pos size with
      | inl hzero =>
        rw [hzero, readAll, readAll, posixRead_zero, win32Read_zero, covered_zero, ← ih arrivals]
        simp [exact_cons]
      | inr hpos =>
        cases arrivals with
        | nil =>
          rw [readAll, readAll, posixRead_waits size hpos, win32Read_waits size hpos hsmall,
            covered_waits size sizes hpos]
          simp [Exact, hsmall]
        | cons arrival later =>
          rw [covered_arrival size sizes arrival later hpos, and_iff_right hsmall]
          by_cases hcovers : size ≤ arrival.length
          · have hlen : (arrival.take size).length = size := by
              rw [List.length_take, Nat.min_eq_left hcovers]
            rw [readAll, readAll, win32Read_covered size arrival later hpos hsmall hcovers,
              posixRead_arrival size arrival later hpos]
            simp only [exact_cons, List.cons.injEq, hlen, true_and, and_self, or_true]
            rw [ih (leftOver size arrival later), and_iff_right hcovers]
          · apply iff_of_false
            · intro h
              exact not_exact_of_short size sizes arrival later hpos
                (Nat.lt_of_not_le hcovers) h.1
            · intro h
              exact hcovers h.1
    · apply iff_of_false
      · intro h
        exact not_same_of_large size sizes arrivals (Nat.not_lt.mp hsmall) h.2
      · intro h
        exact hsmall h.1

/-- The reads are whole, and the same on both backends, exactly if no call crosses the end
of an arrival or asks for as much as the buffer of the win32 driver holds. -/
theorem reads_whole_iff (sizes : List ℕ) (arrivals : Arrivals) :
    ReadsWhole sizes arrivals ↔ Covered sizes arrivals := by
  rw [← exact_same_iff]
  constructor
  · intro h
    exact ⟨h.exact, h.same⟩
  · intro h
    exact ⟨h.1, posixRead_inOrder sizes arrivals, h.2⟩

/-- An acknowledgement of six bytes that arrives in two pieces. -/
theorem split_reply_short :
    ¬ ∀ sizes arrivals, (∀ arrival ∈ arrivals, arrival ≠ []) → ReadsWhole sizes arrivals := by
  intro h
  have hwhole := h [6] [[0x01, 0x23], [0x20, 0x59, 0x35, 0x0D]] (by simp)
  exact absurd hwhole.same (by decide)

end OmapBootUtils.SplitReads
