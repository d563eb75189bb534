import OmapBootUtils.LinkCalls

/-!
pusb, the peripheral boot over USB. send_file gets the ASIC ID, asking for it if
it does not come by itself, and sends the download command, the size and the
file. It asks f_read for 4096 bytes each time and counts the size down to zero.
-/
namespace OmapBootUtils.PeripheralUsb

open ScriptedRun ByteMemory LinkCalls

def commandSize : ℕ := 4
def getAsicidCommand : ℕ := 0xF0030003
def downloadCommand : ℕ := 0xF0030002
def maxSize : ℕ := 64 * 1024
def readBufferSize : ℕ := 4096

/-- The result of libusb_bulk_transfer: its status, and how much it can move. -/
structure Bulk where
  ret : ℤ
  actual : ℕ

/-- `if (r != 0) ret = 0` after a transfer of `length` bytes. -/
def Bulk.count (b : Bulk) (length : ℕ) : ℕ := if b.ret ≠ 0 then 0 else min b.actual length

def bulkIn (length : ℕ) (b : Bulk) : Link ℕ := do
  Run.emit (.bulkIn length b.ret (min b.actual length : ℕ))
  return b.count length

def bulkOut (data : List UInt8) (b : Bulk) : Link ℕ := do
  Run.emit (.bulkOut data b.ret (min b.actual data.length : ℕ))
  return b.count data.length

/-- A transfer of length -1. -/
def bulkOutNegative (b : Bulk) : Link ℤ := do
  Run.emit (.bulkOutNegative b.ret b.actual)
  return if b.ret ≠ 0 then 0 else (b.actual : ℤ)

/-- send_command: whether the command was sent. -/
def sendCommand (command : ℕ) (b : Bulk) : Link Bool := do
  let ret ← bulkOut (leBytes 4 command) b
  return ret == commandSize

/-- The results of the calls send_file makes. A pass of its loop makes one f_read and
one bulk transfer. -/
structure PusbEnv where
  fSize : Option ℕ
  fOpen : Bool
  claimInterface : ℤ
  asicId : Bulk
  getAsicId : Bulk
  asicIdAgain : Bulk
  download : Bulk
  sizeWord : Bulk
  passes : List (Outcome × Bulk)
  releaseInterface : ℤ
  fClose : Bool

/-- `unsigned int filesize = f_size(f_name)`. -/
def PusbEnv.filesize (env : PusbEnv) : ℕ := (fSizeRet env.fSize % 2 ^ 32).toNat

/-- Read the ASIC ID; if it does not arrive in full, request it and read again. -/
def readAsicId (asicidSize : ℕ) (env : PusbEnv) : Link Bool := do
  let ret ← bulkIn asicidSize env.asicId
  if ret ≠ asicidSize then do
    if ← sendCommand getAsicidCommand env.getAsicId then do
      let ret ← bulkIn asicidSize env.asicIdAgain
      return ret == asicidSize
    else return false
  else return true

/-- The while loop that pumps in the data. A failed f_read makes the length of the
transfer -1, and -1 is not what it moves. -/
def pumpLoop : ℕ → List UInt8 → List (Outcome × Bulk) → Link ℤ
  | filesize, _, [] => if filesize = 0 then return 0 else Run.block
  | filesize, rest, (read, bulk) :: passes =>
      if filesize = 0 then return 0 else
      match read with
      | none => do
          Run.emit (.fRead readBufferSize [])
          let ret ← bulkOutNegative bulk
          if ret ≠ -1 then return -1 else pumpLoop ((filesize + 1) % 2 ^ 32) rest passes
      | some n => do
          let readBuffer := rest.take (min n readBufferSize)
          Run.emit (.fRead readBufferSize readBuffer)
          let ret ← bulkOut readBuffer bulk
          if ret ≠ readBuffer.length then return -1 else
          pumpLoop ((filesize + 2 ^ 32 - readBuffer.length) % 2 ^ 32)
            (rest.drop readBuffer.length) passes

/-- The download command, the size and the file. -/
def sendCommandAndFile (file : List UInt8) (env : PusbEnv) : Link ℤ := do
  if ← sendCommand downloadCommand env.download then do
    let ret ← bulkOut (leBytes 4 env.filesize) env.sizeWord
    if ret ≠ 4 then return -1 else pumpLoop env.filesize file env.passes
  else return -1

/-- What send_file does with the interface claimed; the value is `fail`. -/
def transfer (asicidSize : ℕ) (file : List UInt8) (env : PusbEnv) : Link ℤ := do
  if ← readAsicId asicidSize env then sendCommandAndFile file env else return -1

/-- The statements at the label closeup. -/
def closeup (env : PusbEnv) (fail : ℤ) : Link ℤ := do
  Run.emit (.releaseInterface env.releaseInterface)
  let fail := if env.releaseInterface ≠ 0 then env.releaseInterface else fail
  Run.emit .usbClose
  Run.emit (.fClose (fileRet env.fClose))
  return if fileRet env.fClose ≠ 0 then fileRet env.fClose else fail

def sendFile (asicidSize : ℕ) (file : List UInt8) (env : PusbEnv) : Link ℤ := do
  Run.emit (.fSize (fSizeRet env.fSize))
  if env.filesize > maxSize then return -1 else do
    Run.emit (.fOpen (fileRet env.fOpen))
    if !env.fOpen then return -1 else do
      Run.emit (.claimInterface env.claimInterface)
      if env.claimInterface ≠ 0 then return env.claimInterface else do
        let fail ← transfer asicidSize file env
        closeup env fail

/-! ### The steps before the file -/

theorem bulkIn_eq (length : ℕ) (b : Bulk) :
    bulkIn length b =
      Run.after [.bulkIn length b.ret (min b.actual length : ℕ)] (pure (b.count length)) := rfl

theorem bulkOut_eq (data : List UInt8) (b : Bulk) :
    bulkOut data b = Run.after [.bulkOut data b.ret (min b.actual data.length : ℕ)]
      (pure (b.count data.length)) := rfl

theorem sendCommand_eq (command : ℕ) (b : Bulk) :
    sendCommand command b =
      Run.after [.bulkOut (leBytes 4 command) b.ret (min b.actual 4 : ℕ)]
        (pure (b.count 4 == commandSize)) := by
  simp [sendCommand, bulkOut_eq]

/-- A transfer that moves the whole block is counted whole. -/
theorem Bulk.count_of_full (b : Bulk) (length : ℕ) (hret : b.ret = 0)
    (hactual : ((min b.actual length : ℕ) : ℤ) = length) : b.count length = length := by
  rw [Bulk.count, if_neg (not_not.mpr hret)]
  omega

/-- The ASIC ID arrives at once or on request. -/
def IdArrives (asicidSize : ℕ) (env : PusbEnv) : Prop :=
  env.asicId.count asicidSize = asicidSize ∨
    env.getAsicId.count 4 = commandSize ∧ env.asicIdAgain.count asicidSize = asicidSize

instance (asicidSize : ℕ) (env : PusbEnv) : Decidable (IdArrives asicidSize env) :=
  inferInstanceAs (Decidable (_ ∨ _))

def AsicPhase (asicidSize : ℕ) (env : PusbEnv) : Prop :=
  env.fOpen = true ∧ env.claimInterface = 0 ∧ IdArrives asicidSize env

theorem readAsicId_status (asicidSize : ℕ) (env : PusbEnv) :
    (readAsicId asicidSize env).status = .done (decide (IdArrives asicidSize env)) := by
  rw [readAsicId, bulkIn_eq, Run.after_bind, Run.pure_bind, Run.after_status]
  by_cases hfirst : env.asicId.count asicidSize = asicidSize
  · simp [IdArrives, hfirst]
  · by_cases hcommand : env.getAsicId.count 4 = commandSize
    · simp only [ne_eq, hfirst, not_false_eq_true, if_true, sendCommand_eq, bulkIn_eq,
        Run.after_bind, Run.pure_bind, hcommand, beq_self_eq_true, IdArrives, false_or, true_and]
      rfl
    · simp [IdArrives, hfirst, sendCommand_eq, hcommand]

/-- The checks before the file is pumped all pass. -/
def Prologue (asicidSize : ℕ) (env : PusbEnv) : Prop :=
  env.filesize ≤ maxSize ∧ AsicPhase asicidSize env ∧ env.download.count 4 = commandSize ∧
    env.sizeWord.count 4 = 4

/-- readAsicId reads, and sends nothing but the request for the ID. -/
theorem readAsicId_log (asicidSize : ℕ) (env : PusbEnv) :
    ∀ c ∈ (readAsicId asicidSize env).log, (∃ length ret actual, c = .bulkIn length ret actual) ∨
      ∃ ret actual, c = .bulkOut (leBytes 4 getAsicidCommand) ret actual := by
  rw [readAsicId, bulkIn_eq, Run.after_bind, Run.pure_bind]
  split
  · rw [sendCommand_eq, Run.after_bind, Run.pure_bind]
    split
    · intro c hc
      simp only [bulkIn_eq, Run.after_bind, Run.pure_bind, Run.after_log, Run.pure_log,
        List.append_nil, List.cons_append, List.nil_append, List.mem_cons, List.not_mem_nil,
        or_false] at hc
      rcases hc with rfl | rfl | rfl
      · exact Or.inl ⟨_, _, _, rfl⟩
      · exact Or.inr ⟨_, _, rfl⟩
      · exact Or.inl ⟨_, _, _, rfl⟩
    · intro c hc
      simp only [Run.after_log, Run.pure_log, List.append_nil, List.cons_append,
        List.nil_append, List.mem_cons, List.not_mem_nil, or_false] at hc
      rcases hc with rfl | rfl
      · exact Or.inl ⟨_, _, _, rfl⟩
      · exact Or.inr ⟨_, _, rfl⟩
  · intro c hc
    simp only [Run.after_log, Run.pure_log, List.append_nil, List.mem_singleton] at hc
    exact Or.inl ⟨_, _, _, hc⟩

theorem sendFile_asicPhase (asicidSize : ℕ) (file : List UInt8) (env : PusbEnv)
    (h : AsicPhase asicidSize env) (hsize : env.filesize ≤ maxSize) :
    sendFile asicidSize file env =
      Run.after ([.fSize (fSizeRet env.fSize), .fOpen fileOk, .claimInterface 0] ++
          (readAsicId asicidSize env).log)
        (sendCommandAndFile file env >>= closeup env) := by
  have hid := readAsicId_status asicidSize env
  rw [decide_eq_true h.2.2] at hid
  simp [sendFile, Nat.not_lt.mpr hsize, h.1, h.2.1, fileRet, transfer, Run.bind_of_done _ _ _ hid]

theorem sendCommandAndFile_eq (file : List UInt8) (env : PusbEnv) :
    sendCommandAndFile file env =
      Run.after [.bulkOut (leBytes 4 downloadCommand) env.download.ret
          (min env.download.actual 4 : ℕ)]
        (if env.download.count 4 = commandSize then
          Run.after [.bulkOut (leBytes 4 env.filesize) env.sizeWord.ret
              (min env.sizeWord.actual 4 : ℕ)]
            (if env.sizeWord.count 4 ≠ 4 then pure (-1)
            else pumpLoop env.filesize file env.passes)
        else pure (-1)) := by
  rw [sendCommandAndFile, sendCommand_eq, Run.after_bind, Run.pure_bind]
  simp [bulkOut_eq]

theorem closeup_done (env : PusbEnv) (fail : ℤ) : ∃ ret, (closeup env fail).status = .done ret :=
  ⟨_, rfl⟩

theorem closeup_bulkMoved (env : PusbEnv) (fail : ℤ) : bulkMoved (closeup env fail).log = [] := by
  simp [closeup, bulkMoved, LinkCall.bulkMoved]

/-! ### The loop over the file -/

theorem pumpLoop_finished (rest : List UInt8) (passes : List (Outcome × Bulk)) :
    pumpLoop 0 rest passes = pure 0 := by
  cases passes with
  | nil => simp [pumpLoop]
  | cons pass passes =>
    obtain ⟨read, bulk⟩ := pass
    cases read <;> simp [pumpLoop]

theorem pumpLoop_waiting (filesize : ℕ) (rest : List UInt8) (h : filesize ≠ 0) :
    pumpLoop filesize rest [] = Run.block := by
  rw [pumpLoop, if_neg h]

theorem bulkOutNegative_eq (b : Bulk) :
    bulkOutNegative b = Run.after [.bulkOutNegative b.ret b.actual]
      (pure (if b.ret ≠ 0 then 0 else (b.actual : ℤ))) := rfl

theorem bulkOutNegative_count_ne (b : Bulk) :
    (if b.ret ≠ 0 then 0 else (b.actual : ℤ)) ≠ -1 := by
  split <;> omega

/-- The loop is left after an f_read that fails, whatever the transfer returns. -/
theorem pumpLoop_failed (filesize : ℕ) (rest : List UInt8) (bulk : Bulk)
    (passes : List (Outcome × Bulk)) (h : filesize ≠ 0) :
    pumpLoop filesize rest ((none, bulk) :: passes) =
      Run.after [.fRead readBufferSize [], .bulkOutNegative bulk.ret bulk.actual] (pure (-1)) := by
  have hcount := bulkOutNegative_count_ne bulk
  rw [pumpLoop, if_neg h]
  simp only [bulkOutNegative_eq, Run.emit_bind, Run.after_bind, Run.pure_bind, Run.after_after,
    if_pos hcount, List.cons_append, List.nil_append]

/-- One pass of the loop with an f_read that works. -/
theorem pumpLoop_pass (filesize n : ℕ) (rest : List UInt8) (bulk : Bulk)
    (passes : List (Outcome × Bulk)) (h : filesize ≠ 0) :
    pumpLoop filesize rest ((some n, bulk) :: passes) =
      Run.after [.fRead readBufferSize (rest.take (min n readBufferSize)),
          .bulkOut (rest.take (min n readBufferSize)) bulk.ret
            (min bulk.actual (rest.take (min n readBufferSize)).length : ℕ)]
        (if bulk.count (rest.take (min n readBufferSize)).length ≠
            (rest.take (min n readBufferSize)).length then pure (-1)
        else pumpLoop ((filesize + 2 ^ 32 - (rest.take (min n readBufferSize)).length) % 2 ^ 32)
          (rest.drop (rest.take (min n readBufferSize)).length) passes) := by
  rw [pumpLoop, if_neg h]
  simp only [bulkOut_eq, Run.emit_bind, Run.after_bind, Run.pure_bind, Run.after_after,
    List.cons_append, List.nil_append]

/-- Induction along the passes: the count is at zero, the script is used up, f_read
fails, or a pass is made. -/
@[elab_as_elim]
theorem pumpLoop_induction {motive : List (Outcome × Bulk) → ℕ → List UInt8 → Prop}
    (finished : ∀ passes rest, motive passes 0 rest)
    (waiting : ∀ filesize rest, filesize ≠ 0 → motive [] filesize rest)
    (failed : ∀ bulk passes filesize rest, filesize ≠ 0 →
      motive ((none, bulk) :: passes) filesize rest)
    (pass : ∀ n bulk passes filesize rest, filesize ≠ 0 →
      motive passes
        ((filesize + 2 ^ 32 - (rest.take (min n readBufferSize)).length) % 2 ^ 32)
        (rest.drop (rest.take (min n readBufferSize)).length) →
      motive ((some n, bulk) :: passes) filesize rest)
    (passes : List (Outcome × Bulk)) (filesize : ℕ) (rest : List UInt8) :
    motive passes filesize rest := by
  induction passes generalizing filesize rest with
  | nil =>
    by_cases h : filesize = 0
    · subst h
      exact finished [] rest
    · exact waiting filesize rest h
  | cons head passes ih =>
    obtain ⟨read, bulk⟩ := head
    by_cases h : filesize = 0
    · subst h
      exact finished _ rest
    · cases read with
      | none => exact failed bulk passes filesize rest h
      | some n => exact pass n bulk passes filesize rest h (ih _ _)

end OmapBootUtils.PeripheralUsb
