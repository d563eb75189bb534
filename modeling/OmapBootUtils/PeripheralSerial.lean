import OmapBootUtils.SerialPort

/-!
pserial, the peripheral boot over a serial port: main waits for the ASIC ID and
sends the download command, send_file sends the size word and the file in blocks
of at most 2048 bytes. A failed f_read ends the loop and a short s_write is only
reported; both end in status 0, so that status says less than a full download.
-/
namespace OmapBootUtils.PeripheralSerial

open ScriptedRun ByteMemory LinkCalls ReleasedRuns SerialPort

def asicIdSize : ℕ := 7
def asicIdOmap4430 : ℕ := 0x4430
def totSize : ℕ := 2048
def downloadCommand : ℕ := 0xF0030002

/-! ### send_file -/

/-- The results of the calls send_file makes; a pass of its loop makes one f_read
and, unless that failed, one s_write. -/
structure SendFileEnv where
  fSize : Option ℕ
  fOpen : Bool
  sizeWrite : Outcome
  passes : List (Outcome × Outcome)
  fClose : Bool

/-- `signed int size = f_size(f_name)`. -/
def SendFileEnv.size (env : SendFileEnv) : ℤ := (fSizeRet env.fSize).bmod (2 ^ 32)

/-- The request of the next f_read. -/
def toRead (size totRead : ℕ) : ℕ := if size - totRead > totSize then totSize else size - totRead

/-- The bytes f_read returns for it. -/
def curRead (size totRead n : ℕ) (rest : List UInt8) : List UInt8 :=
  rest.take (min n (toRead size totRead))

/-- The while loop over the file; the first two arguments count up to the size. -/
def sendLoop (size : ℕ) : ℕ → List UInt8 → List (Outcome × Outcome) → Link Unit
  | totRead, _, [] => if totRead < size then Run.block else return ()
  | totRead, rest, (read, write) :: passes =>
      if totRead < size then
        match read with
        | none => Run.emit (.fRead (toRead size totRead) [])
        | some n => do
            let buffer := curRead size totRead n rest
            Run.emit (.fRead (toRead size totRead) buffer)
            Run.emit (.sWrite buffer (moved buffer write))
            sendLoop size (totRead + buffer.length) (rest.drop buffer.length) passes
      else return ()

def sendFile (file : List UInt8) (env : SendFileEnv) : Link ℤ := do
  Run.emit (.fSize (fSizeRet env.fSize))
  if env.size < 0 then return env.size else do
    Run.emit (.fOpen (fileRet env.fOpen))
    if !env.fOpen then return -1 else do
      let sizeWord := leBytes 4 env.size.toNat
      let ret := moved sizeWord env.sizeWrite
      Run.emit (.sWrite sizeWord ret)
      if ret ≠ 4 then return -1 else do
        sendLoop env.size.toNat 0 file env.passes
        Run.emit (.fClose (fileRet env.fClose))
        return 0

/-! ### main -/

/-- The loop that waits for the first byte of an ASIC ID. buff[0] keeps its value
over a read that delivers nothing. -/
def waitDevice : UInt8 → List SerialRead → Link (List SerialRead)
  | _, [] => Run.block
  | first, read :: reads => do
      let got ← sRead 1 read
      let first := (got.getD []).headD first
      let ret := if first ≠ 0x04 then 0 else readRet got
      if ret = 0 then waitDevice first reads else return reads

/-- The length of the rest of the ASIC ID; the switch has 50 in all cases but one. -/
def readSize (buff : List UInt8) : ℕ :=
  let asicId := (buff.getD 3 0).toNat * 256 + (buff.getD 4 0).toNat
  if asicId = asicIdOmap4430 then 59 else 50

/-- The two reads of the ASIC ID: `some ret` is a read of the wrong length. -/
def readAsicId : List SerialRead → Link (Option ℤ)
  | [] => Run.block
  | read :: reads => do
      let id ← sRead asicIdSize read
      if readRet id ≠ asicIdSize then return some (readRet id) else
      match reads with
      | [] => Run.block
      | read :: _ => do
          let size := readSize (id.getD [])
          let got ← sRead size read
          if readRet got ≠ size then return some (readRet got) else return none

def awaitAsicId (first : UInt8) (reads : List SerialRead) : Link (Option ℤ) := do
  let reads ← waitDevice first reads
  readAsicId reads

/-- The results of the calls main makes, and buff[0] before the first s_read. -/
structure PserialEnv where
  port : PortEnv
  first : UInt8
  reads : List SerialRead
  commandWrite : Outcome
  file : SendFileEnv

/-- The download command and the file, once the ASIC ID has been read. -/
def sendCommandAndFile (file : List UInt8) (env : PserialEnv) : Link ℤ := do
  let command := leBytes 4 downloadCommand
  let ret := moved command env.commandWrite
  Run.emit (.sWrite command ret)
  if ret ≠ 4 then return -1 else do
    let _ ← sendFile file env.file
    closePort env.port

def pserialBody (file : List UInt8) (env : PserialEnv) : Link ℤ := do
  match ← awaitAsicId env.first env.reads with
  | some ret => closeAndReturn env.port ret
  | none => sendCommandAndFile file env

def pserialMain (file : List UInt8) (env : PserialEnv) : Link ℤ :=
  withPort env.port (pserialBody file env)

/-! ### The ASIC ID -/

/-- The wait ends with this read: it delivers 0x04, or it fails while buff[0] holds
that value from before. -/
def endsWait (first : UInt8) : SerialRead → Bool
  | none => first == 0x04
  | some data => data.head? == some 0x04

/-- The read delivers all that is requested. -/
def readInFull (size : ℕ) : SerialRead → Bool
  | none => false
  | some data => decide (size ≤ data.length)

def idInFull : List SerialRead → Bool
  | id :: rest :: _ => readInFull asicIdSize id &&
      readInFull (readSize ((id.map (List.take asicIdSize)).getD [])) rest
  | _ => false

/-- The reads by which main gets past the ASIC ID. -/
def asicIdRead : UInt8 → List SerialRead → Bool
  | _, [] => false
  | first, read :: reads =>
      if endsWait first read then idInFull reads
      else asicIdRead (((read.map (List.take 1)).getD []).headD first) reads

theorem waitDevice_cons (first : UInt8) (read : SerialRead) (reads : List SerialRead) :
    waitDevice first (read :: reads) =
      Run.after [.sRead 1 ((read.map (List.take 1)).getD [])]
        (if endsWait first read then pure reads
        else waitDevice (((read.map (List.take 1)).getD []).headD first) reads) := by
  rw [waitDevice, sRead_eq, Run.after_bind, Run.pure_bind]
  congr 1
  cases read with
  | none =>
    by_cases hf : first = 4
    · simp [endsWait, hf, readRet, serialFailed]
    · simp [endsWait, hf]
  | some data =>
    cases data with
    | nil => simp [endsWait, readRet]
    | cons b data =>
      by_cases hb : b = 4
      · simp [endsWait, hb, readRet]
      · simp [endsWait, hb]

theorem waitDevice_onlyReads (first : UInt8) (reads : List SerialRead) :
    OnlyReads (waitDevice first reads) := by
  induction reads generalizing first with
  | nil => exact Steady.block _
  | cons read reads ih =>
    rw [waitDevice_cons]
    apply Steady.after _ _ _ (by simp [OtherThanRead])
    split
    · exact Steady.pure _ _
    · exact ih _

theorem readAsicId_onlyReads (reads : List SerialRead) : OnlyReads (readAsicId reads) := by
  cases reads with
  | nil => exact Steady.block _
  | cons read reads =>
    rw [readAsicId]
    apply Steady.bind _ _ _ (sRead_onlyReads _ _)
    intro id
    split
    · exact Steady.pure _ _
    · cases reads with
      | nil => exact Steady.block _
      | cons read reads =>
        apply Steady.bind _ _ _ (sRead_onlyReads _ _)
        intro got
        split
        · exact Steady.pure _ _
        · exact Steady.pure _ _

theorem awaitAsicId_onlyReads (first : UInt8) (reads : List SerialRead) :
    OnlyReads (awaitAsicId first reads) :=
  Steady.bind _ _ _ (waitDevice_onlyReads first reads) readAsicId_onlyReads

theorem readRet_eq_iff (size : ℕ) (read : SerialRead) :
    readRet (read.map (List.take size)) = size ↔ readInFull size read = true := by
  cases read with
  | none => simp [readRet, readInFull, serialFailed]
  | some data =>
    simp only [Option.map_some, readRet, List.length_take, readInFull, decide_eq_true_eq]
    omega

theorem readAsicId_status (reads : List SerialRead) :
    (readAsicId reads).status = .done none ↔ idInFull reads = true := by
  cases reads with
  | nil => simp [readAsicId, idInFull]
  | cons read reads =>
    rw [readAsicId, sRead_eq, Run.after_bind, Run.pure_bind, Run.after_status]
    by_cases hid : readInFull asicIdSize read = true
    · rw [if_neg (not_not.mpr ((readRet_eq_iff _ read).mpr hid))]
      cases reads with
      | nil => simp [idInFull]
      | cons rest reads =>
        simp only [sRead_eq, Run.after_bind, Run.pure_bind, Run.after_status, idInFull, hid,
          Bool.true_and]
        rw [← readRet_eq_iff]
        split
        · next h => simpa using h
        · next h => simpa using h
    · rw [if_pos (mt (readRet_eq_iff _ read).mp hid)]
      cases reads with
      | nil => simp [idInFull]
      | cons rest reads => simp [idInFull, hid]

/-- The phase is passed exactly if the ID arrives in full. -/
theorem awaitAsicId_status (first : UInt8) (reads : List SerialRead) :
    (awaitAsicId first reads).status = .done none ↔ asicIdRead first reads = true := by
  unfold awaitAsicId
  induction reads generalizing first with
  | nil => simp [waitDevice, asicIdRead]
  | cons read reads ih =>
    rw [waitDevice_cons, Run.after_bind, Run.after_status, asicIdRead]
    cases endsWait first read with
    | true => simpa using readAsicId_status reads
    | false => simpa using ih _

/-! ### The loop over the file -/

/-- The loop is left: an f_read fails or the counts add up to the size. -/
def ReadsEnd (size : ℕ) : ℕ → List UInt8 → List (Outcome × Outcome) → Prop
  | totRead, _, [] => size ≤ totRead
  | _, _, (none, _) :: _ => True
  | totRead, rest, (some n, _) :: passes => totRead < size →
      ReadsEnd size (totRead + (curRead size totRead n rest).length)
        (rest.drop (curRead size totRead n rest).length) passes

/-- Up to the size no f_read fails and every s_write takes its block whole; an empty
block may fail. -/
def BlocksTaken (size : ℕ) : ℕ → List UInt8 → List (Outcome × Outcome) → Prop
  | _, _, [] => True
  | totRead, _, (none, _) :: _ => size ≤ totRead
  | totRead, rest, (some n, write) :: passes => totRead < size →
      (curRead size totRead n rest ≠ [] →
        moved (curRead size totRead n rest) write = (curRead size totRead n rest).length) ∧
      BlocksTaken size (totRead + (curRead size totRead n rest).length)
        (rest.drop (curRead size totRead n rest).length) passes

section Loop
variable (size : ℕ)

theorem curRead_length_le (totRead n : ℕ) (rest : List UInt8) :
    (curRead size totRead n rest).length ≤ size - totRead := by
  unfold curRead toRead
  rw [List.length_take]
  split <;> omega

theorem curRead_append (totRead n : ℕ) (rest : List UInt8) :
    curRead size totRead n rest ++ rest.drop (curRead size totRead n rest).length = rest :=
  List.prefix_iff_eq_append.mp (List.take_prefix _ _)

theorem sendLoop_finished (totRead : ℕ) (rest : List UInt8) (passes : List (Outcome × Outcome))
    (h : size ≤ totRead) : sendLoop size totRead rest passes = pure () := by
  cases passes with
  | nil => rw [sendLoop, if_neg (by omega)]
  | cons pass passes =>
    obtain ⟨read, write⟩ := pass
    cases read with
    | none => rw [sendLoop, if_neg (by omega)]
    | some n => rw [sendLoop, if_neg (by omega)]

theorem sendLoop_waiting (totRead : ℕ) (rest : List UInt8) (h : totRead < size) :
    sendLoop size totRead rest [] = Run.block := by
  rw [sendLoop, if_pos h]

theorem sendLoop_failed (totRead : ℕ) (rest : List UInt8) (write : Outcome)
    (passes : List (Outcome × Outcome)) (h : totRead < size) :
    sendLoop size totRead rest ((none, write) :: passes) =
      Run.after [.fRead (toRead size totRead) []] (pure ()) := by
  rw [sendLoop, if_pos h]
  rfl

/-- One pass of the loop with an f_read that works. -/
theorem sendLoop_pass (totRead n : ℕ) (rest : List UInt8) (write : Outcome)
    (passes : List (Outcome × Outcome)) (h : totRead < size) :
    sendLoop size totRead rest ((some n, write) :: passes) =
      Run.after [.fRead (toRead size totRead) (curRead size totRead n rest),
          .sWrite (curRead size totRead n rest) (moved (curRead size totRead n rest) write)]
        (sendLoop size (totRead + (curRead size totRead n rest).length)
          (rest.drop (curRead size totRead n rest).length) passes) := by
  rw [sendLoop, if_pos h]
  simp

/-- Induction along the passes: the loop has got through the size, has used up its
script, fails in f_read, or makes a pass. -/
@[elab_as_elim]
theorem sendLoop_induction {motive : List (Outcome × Outcome) → ℕ → List UInt8 → Prop}
    (finished : ∀ passes totRead rest, size ≤ totRead → motive passes totRead rest)
    (waiting : ∀ totRead rest, totRead < size → motive [] totRead rest)
    (failed : ∀ write passes totRead rest, totRead < size →
      motive ((none, write) :: passes) totRead rest)
    (pass : ∀ n write passes totRead rest, totRead < size →
      motive passes (totRead + (curRead size totRead n rest).length)
        (rest.drop (curRead size totRead n rest).length) →
      motive ((some n, write) :: passes) totRead rest)
    (passes : List (Outcome × Outcome)) (totRead : ℕ) (rest : List UInt8) :
    motive passes totRead rest := by
  induction passes generalizing totRead rest with
  | nil =>
    by_cases h : totRead < size
    · exact waiting totRead rest h
    · exact finished [] totRead rest (Nat.not_lt.mp h)
  | cons head passes ih =>
    obtain ⟨read, write⟩ := head
    by_cases h : totRead < size
    · cases read with
      | none => exact failed write passes totRead rest h
      | some n => exact pass n write passes totRead rest h (ih _ _)
    · exact finished _ totRead rest (Nat.not_lt.mp h)

theorem readsEnd_finished (passes : List (Outcome × Outcome)) (totRead : ℕ) (rest : List UInt8)
    (h : size ≤ totRead) : ReadsEnd size totRead rest passes := by
  match passes with
  | [] => exact h
  | (none, _) :: _ => trivial
  | (some n, _) :: _ =>
    intro hlt
    omega

theorem blocksTaken_finished (passes : List (Outcome × Outcome)) (totRead : ℕ)
    (rest : List UInt8) (h : size ≤ totRead) : BlocksTaken size totRead rest passes := by
  match passes with
  | [] => trivial
  | (none, _) :: _ => exact h
  | (some n, _) :: _ =>
    intro hlt
    omega

theorem sendLoop_status (passes : List (Outcome × Outcome)) (totRead : ℕ) (rest : List UInt8) :
    (sendLoop size totRead rest passes).status = .done () ↔ ReadsEnd size totRead rest passes := by
  induction passes, totRead, rest using sendLoop_induction size with
  | finished passes totRead rest h =>
    rw [sendLoop_finished size totRead rest passes h]
    simpa using readsEnd_finished size passes totRead rest h
  | waiting totRead rest h =>
    rw [sendLoop_waiting size totRead rest h, ReadsEnd]
    simpa using h
  | failed write passes totRead rest h =>
    rw [sendLoop_failed size totRead rest write passes h, ReadsEnd]
    simp
  | pass n write passes totRead rest h ih =>
    rw [sendLoop_pass size totRead n rest write passes h, Run.after_status, ih, ReadsEnd]
    simp [h]

/-- The loop only moves data and stays clear of undefined behaviour. -/
theorem sendLoop_onlyMoves (passes : List (Outcome × Outcome)) (totRead : ℕ)
    (rest : List UInt8) : Steady LinkCall.Controls (sendLoop size totRead rest passes) := by
  induction passes, totRead, rest using sendLoop_induction size with
  | finished passes totRead rest h =>
    rw [sendLoop_finished size totRead rest passes h]
    exact Steady.pure _ _
  | waiting totRead rest h =>
    rw [sendLoop_waiting size totRead rest h]
    exact Steady.block _
  | failed write passes totRead rest h =>
    rw [sendLoop_failed size totRead rest write passes h]
    exact Steady.after _ _ _ (by simp [LinkCall.Controls]) (Steady.pure _ _)
  | pass n write passes totRead rest h ih =>
    rw [sendLoop_pass size totRead n rest write passes h]
    exact Steady.after _ _ _ (by simp [LinkCall.Controls]) ih

theorem accepted_pass (requested : ℕ) (block : List UInt8) (write : Outcome) (x : Link Unit) :
    accepted (Run.after [.fRead requested block, .sWrite block (moved block write)] x).log =
      block.take (moved block write).toNat ++ accepted x.log := by
  simp [accepted, LinkCall.accepted]

theorem sendLoop_accepted_length_le (passes : List (Outcome × Outcome)) (totRead : ℕ)
    (rest : List UInt8) :
    (accepted (sendLoop size totRead rest passes).log).length ≤ size - totRead := by
  induction passes, totRead, rest using sendLoop_induction size with
  | finished passes totRead rest h =>
    rw [sendLoop_finished size totRead rest passes h]
    simp [accepted]
  | waiting totRead rest h =>
    rw [sendLoop_waiting size totRead rest h]
    simp [accepted]
  | failed write passes totRead rest h =>
    rw [sendLoop_failed size totRead rest write passes h]
    simp [accepted, LinkCall.accepted]
  | pass n write passes totRead rest h ih =>
    have hread := curRead_length_le size totRead n rest
    rw [sendLoop_pass size totRead n rest write passes h, accepted_pass, List.length_append,
      List.length_take]
    omega

/-- Of a block and what follows it, all that is asked for has got through exactly if
the block has and what follows has. -/
theorem got_through_iff (block rest later : List UInt8) (k left : ℕ)
    (hblock : block.length ≤ left) (hlater : later.length ≤ left - block.length) :
    block.take k ++ later = (block ++ rest).take left ∧ left ≤ (block ++ rest).length ↔
      (block.take k).length = block.length ∧
        later = rest.take (left - block.length) ∧ left - block.length ≤ rest.length := by
  rw [List.take_append, List.take_of_length_le hblock, List.length_append]
  constructor
  · rintro ⟨heq, hsize⟩
    have hfull : (block.take k).length = block.length := by
      have hlen := congrArg List.length heq
      simp only [List.length_append, List.length_take] at hlen ⊢
      omega
    exact ⟨hfull, (List.append_inj heq hfull).2, by omega⟩
  · rintro ⟨hfull, hrest, hsize⟩
    have hwhole : block.take k = block := (List.take_prefix _ _).eq_of_length hfull
    exact ⟨by rw [hwhole, hrest], by omega⟩

/-- What a loop that was left has got through: the rest of the file up to the size
exactly if every block was taken. -/
theorem sendLoop_complete_iff (passes : List (Outcome × Outcome)) (totRead : ℕ)
    (rest : List UInt8) (htot : totRead ≤ size) (hend : ReadsEnd size totRead rest passes) :
    accepted (sendLoop size totRead rest passes).log = rest.take (size - totRead) ∧
        size - totRead ≤ rest.length ↔
      BlocksTaken size totRead rest passes := by
  induction passes, totRead, rest using sendLoop_induction size with
  | finished passes totRead rest h =>
    rw [sendLoop_finished size totRead rest passes h, show size - totRead = 0 by omega]
    simpa [accepted] using blocksTaken_finished size passes totRead rest h
  | waiting totRead rest h =>
    rw [ReadsEnd] at hend
    omega
  | failed write passes totRead rest h =>
    rw [sendLoop_failed size totRead rest write passes h, BlocksTaken]
    constructor
    · rintro ⟨hempty, hlen⟩
      have hnone := congrArg List.length hempty
      simp only [Run.after_log, Run.pure_log, accepted, List.append_nil, List.flatMap_cons,
        LinkCall.accepted, List.flatMap_nil, List.length_nil, List.length_take] at hnone
      omega
    · intro hsize
      omega
  | pass n write passes totRead rest h ih =>
    rw [ReadsEnd] at hend
    have hread := curRead_length_le size totRead n rest
    have hlater := sendLoop_accepted_length_le size passes
      (totRead + (curRead size totRead n rest).length)
      (rest.drop (curRead size totRead n rest).length)
    have hih := ih (by omega) (hend h)
    have hsplit := curRead_append size totRead n rest
    rw [← Nat.sub_sub] at hlater
    have hthrough := got_through_iff _ (rest.drop (curRead size totRead n rest).length) _
      (moved (curRead size totRead n rest) write).toNat _ hread hlater
    rw [hsplit, Nat.sub_sub, take_moved_length_eq_iff] at hthrough
    rw [sendLoop_pass size totRead n rest write passes h, accepted_pass, BlocksTaken, hthrough, hih]
    simp [h]

end Loop

/-! ### send_file as a whole -/

/-- The steps before the loop succeed. -/
def StartsUp (env : SendFileEnv) : Prop :=
  0 ≤ env.size ∧ env.fOpen = true ∧ wordTaken env.sizeWrite = true

section SendFile
variable (file : List UInt8) (env : SendFileEnv)

theorem sendFile_opened (hsize : 0 ≤ env.size) (hopen : env.fOpen = true) :
    sendFile file env =
      Run.after [.fSize (fSizeRet env.fSize), .fOpen fileOk, .sWrite (leBytes 4 env.size.toNat)
          (moved (leBytes 4 env.size.toNat) env.sizeWrite)]
        (if moved (leBytes 4 env.size.toNat) env.sizeWrite ≠ 4 then pure (-1)
        else sendLoop env.size.toNat 0 file env.passes >>= fun _ =>
          Run.after [.fClose (fileRet env.fClose)] (pure 0)) := by
  simp [sendFile, Int.not_lt.mpr hsize, hopen, fileRet]

theorem sendFile_started (h : StartsUp env) :
    sendFile file env =
      Run.after [.fSize (fSizeRet env.fSize), .fOpen fileOk,
          .sWrite (leBytes 4 env.size.toNat) 4]
        (sendLoop env.size.toNat 0 file env.passes >>= fun _ =>
          Run.after [.fClose (fileRet env.fClose)] (pure 0)) := by
  obtain ⟨hsize, hopen, hword⟩ := h
  have hmoved := (moved_word_eq_iff (leBytes 4 env.size.toNat) (leBytes_length 4 _)
    env.sizeWrite).mpr hword
  rw [sendFile_opened file env hsize hopen, hmoved, if_neg (not_not.mpr rfl)]

/-- Every failure before the loop is reported. -/
theorem sendFile_not_started (h : ¬ StartsUp env) :
    ∃ ret, ret ≠ 0 ∧ (sendFile file env).status = .done ret := by
  by_cases hsize : env.size < 0
  · exact ⟨env.size, by omega, by simp [sendFile, hsize]⟩
  · cases hopen : env.fOpen with
    | false => exact ⟨-1, by decide, by simp [sendFile, hsize, hopen]⟩
    | true =>
      have hword : ¬ wordTaken env.sizeWrite = true :=
        fun hword => h ⟨Int.not_lt.mp hsize, hopen, hword⟩
      have hmoved := mt (moved_word_eq_iff (leBytes 4 env.size.toNat) (leBytes_length 4 _)
        env.sizeWrite).mp hword
      exact ⟨-1, by decide, by simp [sendFile, hsize, hopen, hmoved]⟩

/-- send_file returns 0 whenever it gets to its loop and leaves it. -/
theorem sendFile_status_zero_iff :
    (sendFile file env).status = .done 0 ↔
      StartsUp env ∧ ReadsEnd env.size.toNat 0 file env.passes := by
  by_cases h : StartsUp env
  · rw [sendFile_started file env h, Run.after_status, Run.bind_done_iff, ← sendLoop_status]
    constructor
    · rintro ⟨_, hdone, _⟩
      exact ⟨h, hdone⟩
    · rintro ⟨_, hdone⟩
      exact ⟨(), hdone, rfl⟩
  · obtain ⟨ret, hret, hstatus⟩ := sendFile_not_started file env h
    simp [hstatus, hret, h]

theorem sendFile_leavesPort : LeavesPort (sendFile file env) := by
  have hcall : ∀ c, ¬ PortControl c → LeavesPort (Run.emit c) :=
    Steady.emit PortControl
  unfold sendFile
  apply Steady.bind _ _ _ (hcall _ (by simp [PortControl]))
  intro _
  split
  · exact Steady.pure _ _
  · apply Steady.bind _ _ _ (hcall _ (by simp [PortControl]))
    intro _
    split
    · exact Steady.pure _ _
    · apply Steady.bind _ _ _ (hcall _ (by simp [PortControl]))
      intro _
      split
      · exact Steady.pure _ _
      · apply Steady.bind _ _ _ ((sendLoop_onlyMoves _ _ _ _).mono _ _ fun _ hc => hc.controls)
        intro _
        exact Steady.bind _ _ _ (hcall _ (by simp [PortControl])) fun _ => Steady.pure _ _

theorem sendFile_accepted (h : StartsUp env) :
    accepted (sendFile file env).log = leBytes 4 env.size.toNat ++
      accepted (sendLoop env.size.toNat 0 file env.passes).log := by
  have hword := accepted_full (leBytes 4 env.size.toNat) 4 (by rw [leBytes_length]; rfl)
  have hsetup : accepted [.fSize (fSizeRet env.fSize), .fOpen fileOk,
      .sWrite (leBytes 4 env.size.toNat) 4] = leBytes 4 env.size.toNat := hword
  rw [sendFile_started file env h, Run.after_log, accepted_append, hsetup]
  congr 1
  cases hs : (sendLoop env.size.toNat 0 file env.passes).status <;>
    simp [accepted, LinkCall.accepted, bind, hs]

end SendFile

/-! ### main past the ASIC ID -/

/-- The port is set up and the ASIC ID is read in full. -/
def AsicPhase (env : PserialEnv) : Prop :=
  env.port.sOpen = true ∧ env.port.sConfigure = true ∧ asicIdRead env.first env.reads = true

section Main
variable (file : List UInt8) (env : PserialEnv)

theorem sendCommandAndFile_refused (h : wordTaken env.commandWrite = false) :
    sendCommandAndFile file env =
      Run.after [.sWrite (leBytes 4 downloadCommand)
        (moved (leBytes 4 downloadCommand) env.commandWrite)] (pure (-1)) := by
  have hmoved : moved (leBytes 4 downloadCommand) env.commandWrite ≠ 4 := by
    rw [Ne, moved_word_eq_iff _ (leBytes_length 4 _), h]
    decide
  simp [sendCommandAndFile, hmoved]

theorem sendCommandAndFile_taken (h : wordTaken env.commandWrite = true) :
    sendCommandAndFile file env =
      Run.after [.sWrite (leBytes 4 downloadCommand) 4]
        (sendFile file env.file >>= fun _ => closePort env.port) := by
  have hmoved := (moved_word_eq_iff _ (leBytes_length 4 downloadCommand) _).mpr h
  simp [sendCommandAndFile, hmoved]

theorem pserialMain_asicPhase (h : AsicPhase env) :
    pserialMain file env =
      Run.after ([.sOpen serialOk, .sConfigure serialOk] ++ (awaitAsicId env.first env.reads).log)
        (sendCommandAndFile file env) := by
  obtain ⟨hopen, hconf, hid⟩ := h
  rw [pserialMain, withPort_configured env.port _ hopen hconf, pserialBody,
    Run.bind_of_done _ _ none ((awaitAsicId_status env.first env.reads).mpr hid), Run.after_after]

end Main

end OmapBootUtils.PeripheralSerial
