import OmapBootUtils.ByteMemory
import OmapBootUtils.LinkCalls

/-!
f_read of the win32 backend. It asks ReadFile for what is missing until the request
is filled or the file ends; over any split of the bytes it does what the one fread of
the POSIX backend does. Both return the count as a signed int.
-/
namespace OmapBootUtils.Win32Read

open ScriptedRun ByteMemory
open LinkCalls (fileError)

inductive WinCall where
  | readFile (buffer toRead : ℕ) (data : List UInt8)
  | readFileFailed (buffer toRead : ℕ)

/-- What a caller of f_read has afterwards. -/
structure FReadOut where
  ret : ℤ
  mem : Memory
  position : ℕ

/-- The variables of f_read, with the memory and the position of the file. -/
structure ReadState where
  mem : Memory
  position : ℕ
  buffer : ℕ
  toRead : UInt32
  totalRead : UInt32

/-- An unsigned count returned as a signed int. -/
def intRet (count : ℕ) : ℤ := (count : ℤ).bmod (2 ^ 32)

namespace ReadState

def out (s : ReadState) (ret : ℤ) : FReadOut := ⟨ret, s.mem, s.position⟩

/-- The bytes of the file that are asked for. -/
def wanted (file : List UInt8) (s : ReadState) : List UInt8 :=
  (file.drop s.position).take s.toRead.toNat

/-- A ReadFile that delivers these bytes, and the updates after it. -/
def advance (s : ReadState) (data : List UInt8) : ReadState :=
  { mem := putBytes s.mem s.buffer data
    position := s.position + data.length
    buffer := s.buffer + data.length
    toRead := s.toRead - UInt32.ofNat data.length
    totalRead := s.totalRead + UInt32.ofNat data.length }

end ReadState

/-- The loop over ReadFile. A result says how many bytes the call may deliver, or that
it failed. -/
def readLoop (file : List UInt8) (readSize : UInt32) :
    List (Option ℕ) → ReadState → Run WinCall FReadOut
  | [], s => if s.totalRead < readSize then Run.block else return s.out (intRet s.totalRead.toNat)
  | result :: results, s =>
      if s.totalRead < readSize then
        match result with
        | none => do
            Run.emit (.readFileFailed s.buffer s.toRead.toNat)
            return s.out fileError
        | some n => do
            let data := (s.wanted file).take n
            Run.emit (.readFile s.buffer s.toRead.toNat data)
            -- `Should not have read just 0 bytes!!!`
            if data.length = 0 then return s.out (intRet s.totalRead.toNat) else
            readLoop file readSize results (s.advance data)
      else return s.out (intRet s.totalRead.toNat)

/-- f_read of file_win32.c. -/
def fRead (isOpen : Bool) (file : List UInt8) (results : List (Option ℕ)) (buffer : ℕ)
    (readSize : UInt32) (mem : Memory) (position : ℕ) : Run WinCall FReadOut :=
  if isOpen then readLoop file readSize results ⟨mem, position, buffer, readSize, 0⟩
  else return ⟨fileError, mem, position⟩

/-- f_read of file_posix.c: one fread of read_size bytes. -/
def posixFRead (isOpen : Bool) (file : List UInt8) (buffer : ℕ) (readSize : UInt32)
    (mem : Memory) (position : ℕ) : FReadOut :=
  if isOpen then
    let data := (file.drop position).take readSize.toNat
    ⟨intRet data.length, putBytes mem buffer data, position + data.length⟩
  else ⟨fileError, mem, position⟩

theorem intRet_small (count : ℕ) (h : count < 2 ^ 31) : intRet count = count := by
  unfold intRet
  rw [Int.bmod_eq_of_le] <;> omega

/-! ### One pass -/

/-- to_read is what total_read leaves of the request. -/
def InStep (readSize : UInt32) (s : ReadState) : Prop :=
  s.totalRead.toNat + s.toRead.toNat = readSize.toNat

/-- Successful calls that deliver a byte as long as there is one. -/
def Delivering (results : List (Option ℕ)) : Prop :=
  ∀ result ∈ results, ∃ n, result = some n ∧ 1 ≤ n

theorem wanted_length_le (file : List UInt8) (s : ReadState) :
    (s.wanted file).length ≤ s.toRead.toNat := by
  unfold ReadState.wanted
  rw [List.length_take]
  exact Nat.min_le_left _ _

section Pass

variable (file : List UInt8) (s : ReadState) (n : ℕ)

theorem taken_length_le : ((s.wanted file).take n).length ≤ s.toRead.toNat := by
  have h := wanted_length_le file s
  rw [List.length_take]
  omega

theorem toNat_taken : (UInt32.ofNat ((s.wanted file).take n).length).toNat =
    ((s.wanted file).take n).length := by
  have h := taken_length_le file s n
  have hlt : s.toRead.toNat < 2 ^ 32 := s.toRead.toNat_lt
  rw [UInt32.toNat_ofNat']
  omega

theorem toRead_advance : (s.advance ((s.wanted file).take n)).toRead.toNat =
    s.toRead.toNat - ((s.wanted file).take n).length := by
  have h : (UInt32.ofNat ((s.wanted file).take n).length).toNat ≤ s.toRead.toNat := by
    rw [toNat_taken]
    exact taken_length_le file s n
  change (s.toRead - UInt32.ofNat _).toNat = _
  rw [UInt32.toNat_sub_of_le _ _ (UInt32.le_iff_toNat_le.mpr h), toNat_taken]

/-- What is asked for next is what the call has not delivered. -/
theorem wanted_advance :
    (s.advance ((s.wanted file).take n)).wanted file =
      (s.wanted file).drop ((s.wanted file).take n).length := by
  rw [ReadState.wanted, toRead_advance]
  unfold ReadState.wanted
  rw [List.drop_take, List.drop_drop]
  rfl

variable {s} {readSize : UInt32}

theorem InStep.totalRead_advance (h : InStep readSize s) :
    (s.advance ((s.wanted file).take n)).totalRead.toNat =
      s.totalRead.toNat + ((s.wanted file).take n).length := by
  have hle := taken_length_le file s n
  have hlt : readSize.toNat < 2 ^ 32 := readSize.toNat_lt
  unfold InStep at h
  change (s.totalRead + UInt32.ofNat _).toNat = _
  rw [UInt32.toNat_add, toNat_taken]
  omega

/-- A pass keeps the counters in step. -/
theorem InStep.advance (h : InStep readSize s) :
    InStep readSize (s.advance ((s.wanted file).take n)) := by
  have hle := taken_length_le file s n
  have htotal := h.totalRead_advance file n
  unfold InStep at h ⊢
  rw [htotal, toRead_advance]
  omega

theorem lt_readSize_iff (h : InStep readSize s) : s.totalRead < readSize ↔ s.toRead.toNat ≠ 0 := by
  rw [UInt32.lt_iff_toNat_lt]
  unfold InStep at h
  omega

theorem wanted_nil_of_filled (h : InStep readSize s) (hfull : ¬ s.totalRead < readSize) :
    s.wanted file = [] := by
  have hle := wanted_length_le file s
  have hzero : s.toRead.toNat = 0 := by
    by_contra hne
    exact hfull ((lt_readSize_iff h).mpr hne)
  exact List.eq_nil_of_length_eq_zero (by omega)

end Pass

/-! ### The loop -/

theorem readLoop_filled (file : List UInt8) (readSize : UInt32) (results : List (Option ℕ))
    (s : ReadState) (h : ¬ s.totalRead < readSize) :
    readLoop file readSize results s = pure (s.out (intRet s.totalRead.toNat)) := by
  cases results with
  | nil => simp only [readLoop, if_neg h]
  | cons result results => simp only [readLoop, if_neg h]

/-- The loop's result when the bytes asked for have been stored. -/
def filled (file : List UInt8) (s : ReadState) : FReadOut :=
  ⟨intRet (s.totalRead.toNat + (s.wanted file).length), putBytes s.mem s.buffer (s.wanted file),
    s.position + (s.wanted file).length⟩

theorem filled_of_wanted_nil (file : List UInt8) (s : ReadState) (h : s.wanted file = []) :
    filled file s = s.out (intRet s.totalRead.toNat) := by
  rw [filled, h, putBytes_nil]
  rfl

/-- A call that delivers a part of what is asked for leaves the rest to the next ones. -/
theorem filled_advance (file : List UInt8) (readSize : UInt32) (s : ReadState) (n : ℕ)
    (h : InStep readSize s) :
    filled file (s.advance ((s.wanted file).take n)) = filled file s := by
  have hsplit := List.take_append_drop n (s.wanted file)
  have hdrop : (s.wanted file).drop ((s.wanted file).take n).length = (s.wanted file).drop n := by
    rw [List.length_take]
    by_cases hn : n ≤ (s.wanted file).length
    · rw [Nat.min_eq_left hn]
    · rw [Nat.min_eq_right (by omega), List.drop_length, List.drop_eq_nil_of_le (by omega)]
  have hlength := congrArg List.length hsplit
  rw [List.length_append] at hlength
  have hmem : putBytes s.mem s.buffer (s.wanted file) =
      putBytes (s.advance ((s.wanted file).take n)).mem
        (s.advance ((s.wanted file).take n)).buffer ((s.wanted file).drop n) := by
    conv_lhs => rw [← hsplit, putBytes_append]
    rfl
  unfold filled
  rw [wanted_advance, hdrop, h.totalRead_advance, hmem, Nat.add_assoc, hlength]
  congr 1
  change s.position + ((s.wanted file).take n).length + _ = _
  omega

/-- Over any split the loop stores what is asked for. -/
theorem readLoop_done (file : List UInt8) (readSize : UInt32) (results : List (Option ℕ))
    (s : ReadState) (h : InStep readSize s) (hresults : Delivering results)
    (hlong : s.toRead.toNat ≤ results.length) :
    (readLoop file readSize results s).status = .done (filled file s) := by
  induction results generalizing s with
  | nil =>
    have hzero : s.toRead.toNat = 0 := by simpa using hlong
    have hfull : ¬ s.totalRead < readSize := fun hless => (lt_readSize_iff h).mp hless hzero
    rw [readLoop_filled file readSize [] s hfull, filled_of_wanted_nil file s]
    · rfl
    · exact wanted_nil_of_filled file h hfull
  | cons result results ih =>
    by_cases hless : s.totalRead < readSize
    · obtain ⟨n, rfl, hn⟩ := hresults result (by simp)
      simp only [readLoop, if_pos hless, Run.emit_bind, Run.after_status]
      by_cases hempty : ((s.wanted file).take n).length = 0
      · rw [if_pos hempty, filled_of_wanted_nil file s]
        · rfl
        · apply List.eq_nil_of_length_eq_zero
          rw [List.length_take] at hempty
          omega
      · have htoRead := toRead_advance file s n
        have hrest : Delivering results := fun r hr => hresults r (by simp [hr])
        rw [List.length_cons] at hlong
        rw [if_neg hempty, ← filled_advance file readSize s n h]
        exact ih _ (h.advance file n) hrest (by omega)
    · rw [readLoop_filled file readSize _ s hless, filled_of_wanted_nil file s]
      · rfl
      · exact wanted_nil_of_filled file h hless

/-- A call asks for bytes between these two addresses. -/
def WinCall.Within (first last : ℕ) : WinCall → Prop
  | .readFile buffer toRead _ => first ≤ buffer ∧ buffer + toRead ≤ last
  | .readFileFailed buffer toRead => first ≤ buffer ∧ buffer + toRead ≤ last

/-- Whatever the results, no call asks for bytes past the end of the buffer. -/
theorem readLoop_within (file : List UInt8) (readSize : UInt32) (results : List (Option ℕ))
    (first last : ℕ) (s : ReadState) (hfirst : first ≤ s.buffer)
    (hlast : s.buffer + s.toRead.toNat ≤ last) :
    ∀ c ∈ (readLoop file readSize results s).log, c.Within first last := by
  induction results generalizing s with
  | nil =>
    unfold readLoop
    split <;> simp
  | cons result results ih =>
    unfold readLoop
    split
    case isFalse => simp
    case isTrue =>
      cases result with
      | none => simpa [WinCall.Within] using ⟨hfirst, hlast⟩
      | some n =>
        have htoRead := toRead_advance file s n
        have hle := taken_length_le file s n
        have hnext := ih (s.advance ((s.wanted file).take n))
          (by change first ≤ s.buffer + _; omega) (by change s.buffer + _ + _ ≤ last; omega)
        simp only [Run.emit_bind, Run.after_log, List.cons_append, List.nil_append,
          List.forall_mem_cons]
        refine ⟨⟨hfirst, hlast⟩, ?_⟩
        split
        · simp
        · exact hnext

/-! ### Both backends -/

/-- What f_read leaves behind: the count, these bytes at the start of the buffer, and
nothing else changed. -/
structure Reads (file : List UInt8) (buffer : ℕ) (readSize : UInt32) (mem : Memory)
    (position count : ℕ) (out : FReadOut) : Prop where
  counted : count = min readSize.toNat (file.length - position)
  ret : out.ret = intRet count
  data : readBytes out.mem buffer count = (file.drop position).take count
  rest : ∀ j, j < buffer ∨ buffer + count ≤ j → out.mem j = mem j
  position : out.position = position + count

theorem posixFRead_open (file : List UInt8) (buffer : ℕ) (readSize : UInt32) (mem : Memory)
    (position : ℕ) :
    posixFRead true file buffer readSize mem position =
      ⟨intRet ((file.drop position).take readSize.toNat).length,
        putBytes mem buffer ((file.drop position).take readSize.toNat),
        position + ((file.drop position).take readSize.toNat).length⟩ := by
  simp only [posixFRead, if_true]

theorem posixFRead_reads (file : List UInt8) (buffer : ℕ) (readSize : UInt32) (mem : Memory)
    (position : ℕ) :
    Reads file buffer readSize mem position (min readSize.toNat (file.length - position))
      (posixFRead true file buffer readSize mem position) := by
  have hlength : ((file.drop position).take readSize.toNat).length =
      min readSize.toNat (file.length - position) := by
    rw [List.length_take, List.length_drop]
  rw [posixFRead_open, ← hlength]
  constructor
  case counted => exact hlength
  case ret => simp only
  case data => rw [readBytes_putBytes, List.length_take, ← List.take_eq_take_min]
  case rest =>
    intro j hj
    exact putBytes_outside mem buffer _ j hj
  case position => rfl

theorem fRead_eq_posix (file : List UInt8) (results : List (Option ℕ)) (buffer : ℕ)
    (readSize : UInt32) (mem : Memory) (position : ℕ) (hresults : Delivering results)
    (hlong : readSize.toNat ≤ results.length) :
    (fRead true file results buffer readSize mem position).status =
      .done (posixFRead true file buffer readSize mem position) := by
  have hdone := readLoop_done file readSize results ⟨mem, position, buffer, readSize, 0⟩
    (Nat.zero_add _) hresults hlong
  rw [fRead, if_pos rfl, hdone, posixFRead_open, filled]
  simp [ReadState.wanted]

/-- f_read of the win32 backend has the result, the buffer and the position of one fread:
the count as a signed int, the bytes of the file, and no request past the buffer. -/
theorem fRead_reads (file : List UInt8) (results : List (Option ℕ)) (buffer : ℕ)
    (readSize : UInt32) (mem : Memory) (position : ℕ) (hresults : Delivering results)
    (hlong : readSize.toNat ≤ results.length) :
    ∃ out count,
      (fRead true file results buffer readSize mem position).status = .done out ∧
      out = posixFRead true file buffer readSize mem position ∧
      Reads file buffer readSize mem position count out ∧
      (count < 2 ^ 31 → out.ret = count) ∧
      ∀ c ∈ (fRead true file results buffer readSize mem position).log,
        c.Within buffer (buffer + readSize.toNat) := by
  have hreads := posixFRead_reads file buffer readSize mem position
  refine ⟨_, _, fRead_eq_posix file results buffer readSize mem position hresults hlong, rfl,
    hreads, ?_, ?_⟩
  · intro hsmall
    rw [hreads.ret, intRet_small _ hsmall]
  · rw [fRead, if_pos rfl]
    exact readLoop_within file readSize results buffer _ _ (Nat.le_refl _) (Nat.le_refl _)

/-- Two calls fill a request for two bytes of three. -/
theorem fRead_reads_split :
    ∃ out count,
      (fRead true [1, 2, 3] [some 1, some 2] 16 2 (fun _ => 0) 0).status = .done out ∧
      out = posixFRead true [1, 2, 3] 16 2 (fun _ => 0) 0 ∧
      Reads [1, 2, 3] 16 2 (fun _ => 0) 0 count out ∧
      (count < 2 ^ 31 → out.ret = count) ∧
      ∀ c ∈ (fRead true [1, 2, 3] [some 1, some 2] 16 2 (fun _ => 0) 0).log,
        c.Within 16 (16 + (2 : UInt32).toNat) :=
  fRead_reads [1, 2, 3] [some 1, some 2] 16 2 (fun _ => 0) 0 (by simp [Delivering]) (by decide)

/-- A request of 2 GiB that is filled returns a negative number. -/
theorem fRead_returns_negative :
    ¬ ∀ (file : List UInt8) (results : List (Option ℕ)) (buffer : ℕ) (readSize : UInt32)
        (mem : Memory) (position : ℕ), Delivering results → readSize.toNat ≤ results.length →
        ∃ out, (fRead true file results buffer readSize mem position).status = .done out ∧
          out.ret = (min readSize.toNat (file.length - position) : ℕ) := by
  intro h
  have hsize : (2147483648 : UInt32).toNat = 2 ^ 31 := rfl
  have hlength : (List.replicate (2 ^ 31) (0 : UInt8)).length - 0 = 2 ^ 31 := by
    rw [List.length_replicate, Nat.sub_zero]
  have hresults : Delivering (List.replicate (2 ^ 31) (some 1)) := by
    intro result hresult
    exact ⟨1, List.eq_of_mem_replicate hresult, Nat.le_refl 1⟩
  have hlong : (2147483648 : UInt32).toNat ≤
      (List.replicate (2 ^ 31) (some 1 : Option ℕ)).length := by
    rw [List.length_replicate, hsize]
  obtain ⟨out, hdone, hret⟩ := h (List.replicate (2 ^ 31) 0) (List.replicate (2 ^ 31) (some 1)) 0
    2147483648 (fun _ => 0) 0 hresults hlong
  rw [fRead_eq_posix _ _ _ _ _ _ hresults hlong] at hdone
  have hposix := (posixFRead_reads (List.replicate (2 ^ 31) 0) 0 2147483648 (fun _ => 0) 0).ret
  obtain rfl := Status.done.inj hdone
  rw [hposix, hsize, hlength] at hret
  exact absurd hret (by decide)

end OmapBootUtils.Win32Read
