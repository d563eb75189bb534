import OmapBootUtils.InstrumentedRun
import OmapBootUtils.PeripheralUsb
import OmapBootUtils.ReleasedRuns

/-!
The size pusb reports, the size it announces and what it sends. send_file with the
transfers of the file and the subtractions from its remaining count in its log: the
size is cut to 32 bits before it is checked, and a read may deliver more than is left
of it.
-/
namespace OmapBootUtils.SizeAccounting

open ScriptedRun InstrumentedRun ReleasedRuns ByteMemory LinkCalls PeripheralUsb

/-! ### The sender with its count -/

/-- A call of the link, a bulk transfer of what was read from the file, and a subtraction
from the remaining count. -/
inductive CountCall where
  | link (call : LinkCall)
  | dataOut (data : List UInt8) (ret : ℤ) (actual : ℤ)
  | subtract (filesize rSize : ℕ)
  deriving DecidableEq

abbrev Counted := Run CountCall

def CountCall.toLink : CountCall → Option LinkCall
  | .link call => some call
  | .dataOut data ret actual => some (.bulkOut data ret actual)
  | .subtract _ _ => none

def dataOut (data : List UInt8) (b : Bulk) : Counted ℕ := do
  Run.emit (.dataOut data b.ret (min b.actual data.length : ℕ))
  return b.count data.length

/-- The while loop that pumps in the data. -/
def countedPump : ℕ → List UInt8 → List (Outcome × Bulk) → Counted ℤ
  | filesize, _, [] => if filesize = 0 then return 0 else Run.block
  | filesize, rest, (read, bulk) :: passes =>
      if filesize = 0 then return 0 else
      match read with
      | none => do
          Run.emit (.link (.fRead readBufferSize []))
          let ret ← embed .link (bulkOutNegative bulk)
          if ret ≠ -1 then return -1 else do
            Run.emit (.subtract filesize (2 ^ 32 - 1))
            countedPump ((filesize + 1) % 2 ^ 32) rest passes
      | some n => do
          let readBuffer := rest.take (min n readBufferSize)
          Run.emit (.link (.fRead readBufferSize readBuffer))
          let ret ← dataOut readBuffer bulk
          if ret ≠ readBuffer.length then return -1 else do
            Run.emit (.subtract filesize readBuffer.length)
            countedPump ((filesize + 2 ^ 32 - readBuffer.length) % 2 ^ 32)
              (rest.drop readBuffer.length) passes

def countedCommandAndFile (file : List UInt8) (env : PusbEnv) : Counted ℤ := do
  if ← embed .link (sendCommand downloadCommand env.download) then do
    let ret ← embed .link (bulkOut (leBytes 4 env.filesize) env.sizeWord)
    if ret ≠ 4 then return -1 else countedPump env.filesize file env.passes
  else return -1

def countedTransfer (asicidSize : ℕ) (file : List UInt8) (env : PusbEnv) : Counted ℤ := do
  if ← embed .link (readAsicId asicidSize env) then countedCommandAndFile file env else return -1

def countedSend (asicidSize : ℕ) (file : List UInt8) (env : PusbEnv) : Counted ℤ := do
  Run.emit (.link (.fSize (fSizeRet env.fSize)))
  if env.filesize > maxSize then return -1 else do
    Run.emit (.link (.fOpen (fileRet env.fOpen)))
    if !env.fOpen then return -1 else do
      Run.emit (.link (.claimInterface env.claimInterface))
      if env.claimInterface ≠ 0 then return env.claimInterface else do
        let fail ← countedTransfer asicidSize file env
        embed .link (closeup env fail)

/-- What f_read puts into the buffer in a pass. -/
def block (rest : List UInt8) (n : ℕ) : List UInt8 := rest.take (min n readBufferSize)

theorem countedPump_finished (rest : List UInt8) (passes : List (Outcome × Bulk)) :
    countedPump 0 rest passes = pure 0 := by
  cases passes with
  | nil => simp [countedPump]
  | cons pass passes => simp [countedPump]

theorem countedPump_failed (filesize : ℕ) (rest : List UInt8) (bulk : Bulk)
    (passes : List (Outcome × Bulk)) (h : filesize ≠ 0) :
    countedPump filesize rest ((none, bulk) :: passes) =
      Run.after [.link (.fRead readBufferSize []),
        .link (.bulkOutNegative bulk.ret bulk.actual)] (pure (-1)) := by
  have hcount := bulkOutNegative_count_ne bulk
  have htransfer : (embed CountCall.link (bulkOutNegative bulk)) =
      Run.after [.link (.bulkOutNegative bulk.ret bulk.actual)]
        (pure (if bulk.ret ≠ 0 then 0 else (bulk.actual : ℤ))) := rfl
  rw [countedPump, if_neg h]
  simp only [htransfer, Run.emit_bind, Run.after_bind, Run.pure_bind, Run.after_after,
    if_pos hcount, List.cons_append, List.nil_append]

/-- One pass of the loop with an f_read that works. -/
theorem countedPump_pass (filesize n : ℕ) (rest : List UInt8) (bulk : Bulk)
    (passes : List (Outcome × Bulk)) (h : filesize ≠ 0) :
    countedPump filesize rest ((some n, bulk) :: passes) =
      Run.after [.link (.fRead readBufferSize (block rest n)),
          .dataOut (block rest n) bulk.ret (min bulk.actual (block rest n).length : ℕ)]
        (if bulk.count (block rest n).length ≠ (block rest n).length then pure (-1)
        else Run.after [.subtract filesize (block rest n).length]
          (countedPump ((filesize + 2 ^ 32 - (block rest n).length) % 2 ^ 32)
            (rest.drop (block rest n).length) passes)) := by
  rw [countedPump, if_neg h]
  simp only [dataOut, Run.emit_bind, Run.after_bind, Run.pure_bind, Run.after_after,
    List.cons_append, List.nil_append]
  rfl

theorem erase_countedPump (passes : List (Outcome × Bulk)) (filesize : ℕ) (rest : List UInt8) :
    erase CountCall.toLink (countedPump filesize rest passes) = pumpLoop filesize rest passes := by
  induction passes, filesize, rest using pumpLoop_induction with
  | finished passes rest => rw [countedPump_finished, pumpLoop_finished, erase_pure]
  | waiting filesize rest h =>
    rw [pumpLoop_waiting filesize rest h, countedPump, if_neg h, erase_block]
  | failed bulk passes filesize rest h =>
    rw [pumpLoop_failed filesize rest bulk passes h,
      countedPump_failed filesize rest bulk passes h, erase_after, erase_pure]
    rfl
  | pass n bulk passes filesize rest h ih =>
    have hsubtract : ∀ rSize, [CountCall.subtract filesize rSize].filterMap CountCall.toLink =
        [] := fun _ => rfl
    rw [countedPump_pass filesize n rest bulk passes h,
      pumpLoop_pass filesize n rest bulk passes h, erase_after,
      apply_ite (erase CountCall.toLink), erase_pure, erase_after, hsubtract, Run.after_nil]
    unfold block
    rw [ih]
    rfl

/-- With what was added erased the sender is send_file. -/
theorem erase_countedSend (asicidSize : ℕ) (file : List UInt8) (env : PusbEnv) :
    erase CountCall.toLink (countedSend asicidSize file env) = sendFile asicidSize file env := by
  have hlink : ∀ {α : Type} (x : Link α), erase CountCall.toLink (embed .link x) = x := fun x =>
    erase_embed CountCall.toLink CountCall.link (fun _ => rfl) x
  have hsend : erase CountCall.toLink (countedCommandAndFile file env) =
      sendCommandAndFile file env := by
    simp only [countedCommandAndFile, sendCommandAndFile, erase_bind, hlink,
      apply_ite (erase CountCall.toLink), erase_pure, erase_countedPump]
  have htransfer : erase CountCall.toLink (countedTransfer asicidSize file env) =
      transfer asicidSize file env := by
    simp only [countedTransfer, transfer, erase_bind, hlink, apply_ite (erase CountCall.toLink),
      erase_pure, hsend]
  simp only [countedSend, sendFile, Run.emit_bind, erase_after, apply_ite (erase CountCall.toLink),
    erase_pure, erase_bind, htransfer, hlink]
  rfl

/-! ### The notes of a run -/

/-- What the sender of the file adds to the calls of the link. -/
def CountCall.IsNote : CountCall → Prop
  | .link _ => False
  | _ => True

theorem embed_avoids {α : Type} (x : Link α) : Avoids CountCall.IsNote (embed .link x) := by
  intro c hc hnote
  obtain ⟨call, -, rfl⟩ := List.mem_map.mp hc
  exact hnote

theorem countedCommandAndFile_eq (file : List UInt8) (env : PusbEnv) :
    countedCommandAndFile file env =
      Run.after [.link (.bulkOut (leBytes 4 downloadCommand) env.download.ret
          (min env.download.actual 4 : ℕ))]
        (if env.download.count 4 = commandSize then
          Run.after [.link (.bulkOut (leBytes 4 env.filesize) env.sizeWord.ret
              (min env.sizeWord.actual 4 : ℕ))]
            (if env.sizeWord.count 4 ≠ 4 then pure (-1)
            else countedPump env.filesize file env.passes)
        else pure (-1)) := by
  have hcommand : (embed CountCall.link (sendCommand downloadCommand env.download)) =
      Run.after [.link (.bulkOut (leBytes 4 downloadCommand) env.download.ret
        (min env.download.actual 4 : ℕ))] (pure (env.download.count 4 == commandSize)) := by
    rw [sendCommand_eq]
    rfl
  have hword : (embed CountCall.link (bulkOut (leBytes 4 env.filesize) env.sizeWord)) =
      Run.after [.link (.bulkOut (leBytes 4 env.filesize) env.sizeWord.ret
        (min env.sizeWord.actual 4 : ℕ))] (pure (env.sizeWord.count 4)) := by
    rw [bulkOut_eq, leBytes_length]
    rfl
  rw [countedCommandAndFile, hcommand, hword]
  simp

/-- Where a check fails nothing of the file is sent. -/
theorem countedSend_avoids (asicidSize : ℕ) (file : List UInt8) (env : PusbEnv)
    (h : ¬ Prologue asicidSize env) :
    Avoids CountCall.IsNote (countedSend asicidSize file env) := by
  unfold countedSend
  rw [Run.emit_bind]
  apply Avoids.after _ _ _ (by simp [CountCall.IsNote])
  split
  case isTrue => exact Avoids.pure _ _
  case isFalse hsize =>
    rw [Run.emit_bind]
    apply Avoids.after _ _ _ (by simp [CountCall.IsNote])
    split
    case isTrue => exact Avoids.pure _ _
    case isFalse hopen =>
      rw [Run.emit_bind]
      apply Avoids.after _ _ _ (by simp [CountCall.IsNote])
      split
      case isTrue => exact Avoids.pure _ _
      case isFalse hclaim =>
        apply Avoids.bind _ _ _ _ fun fail => embed_avoids _
        apply (avoids_bind_iff _ _ _).mpr ⟨embed_avoids _, ?_⟩
        intro got hgot
        rw [embed_status, readAsicId_status, Status.done.injEq] at hgot
        split
        case isFalse => exact Avoids.pure _ _
        case isTrue hid =>
          rw [← hgot, decide_eq_true_eq] at hid
          rw [countedCommandAndFile_eq]
          apply Avoids.after _ _ _ (by simp [CountCall.IsNote])
          split
          case isFalse => exact Avoids.pure _ _
          case isTrue hdownload =>
            apply Avoids.after _ _ _ (by simp [CountCall.IsNote])
            split
            case isTrue => exact Avoids.pure _ _
            case isFalse hword =>
              refine absurd ⟨Nat.le_of_not_lt hsize, ⟨by simpa using hopen, ?_, hid⟩, hdownload,
                not_not.mp hword⟩ h
              exact not_not.mp hclaim

/-- Otherwise the notes are those of the loop. -/
theorem countedSend_log (asicidSize : ℕ) (file : List UInt8) (env : PusbEnv)
    (h : Prologue asicidSize env) :
    ∃ before later, (∀ c ∈ before, ¬ c.IsNote) ∧ (∀ c ∈ later, ¬ c.IsNote) ∧
      (countedSend asicidSize file env).log =
        before ++ (countedPump env.filesize file env.passes).log ++ later := by
  obtain ⟨hsize, hasic, hdownload, hword⟩ := h
  have hstatus := readAsicId_status asicidSize env
  rw [decide_eq_true hasic.2.2] at hstatus
  have htransfer : countedTransfer asicidSize file env =
      Run.after ((readAsicId asicidSize env).log.map .link ++
          [.link (.bulkOut (leBytes 4 downloadCommand) env.download.ret
              (min env.download.actual 4 : ℕ)),
            .link (.bulkOut (leBytes 4 env.filesize) env.sizeWord.ret
              (min env.sizeWord.actual 4 : ℕ))])
        (countedPump env.filesize file env.passes) := by
    rw [countedTransfer, Run.bind_of_done (embed CountCall.link (readAsicId asicidSize env)) _ true
      hstatus, if_pos rfl, countedCommandAndFile_eq, if_pos hdownload, if_neg (not_not.mpr hword)]
    simp
  obtain ⟨later, hlater, hmem⟩ := Run.bind_log (countedTransfer asicidSize file env)
    fun fail => embed CountCall.link (closeup env fail)
  have hlog : (countedSend asicidSize file env).log =
      [.link (.fSize (fSizeRet env.fSize)), .link (.fOpen (fileRet env.fOpen)),
        .link (.claimInterface env.claimInterface)] ++
          (countedTransfer asicidSize file env).log ++ later := by
    rw [List.append_assoc, ← hlater]
    simp [countedSend, Nat.not_lt.mpr hsize, hasic.1, hasic.2.1]
  rw [htransfer, Run.after_log] at hlog
  refine ⟨_, later, ?_, ?_, hlog.trans (by rw [← List.append_assoc])⟩
  · intro c hc
    simp only [List.mem_append, List.mem_cons, List.mem_map, List.not_mem_nil, or_false] at hc
    obtain (rfl | rfl | rfl) | ⟨call, -, rfl⟩ | rfl | rfl := hc <;> exact not_false
  · intro c hc
    obtain ⟨fail, hc⟩ := hmem c hc
    exact embed_avoids _ c hc

/-! ### The loop -/

def CountCall.payload : CountCall → List UInt8
  | .dataOut data _ actual => data.take actual.toNat
  | _ => []

/-- The bytes of the file that were moved. -/
def payload (log : List CountCall) : List UInt8 := log.flatMap CountCall.payload

theorem payload_append (l m : List CountCall) : payload (l ++ m) = payload l ++ payload m :=
  List.flatMap_append

theorem payload_of_no_notes (l : List CountCall) (h : ∀ c ∈ l, ¬ c.IsNote) : payload l = [] := by
  apply List.flatMap_eq_nil_iff.mpr
  intro c hc
  cases c with
  | link call => rfl
  | dataOut data ret actual => exact absurd trivial (h _ hc)
  | subtract filesize rSize => exact absurd trivial (h _ hc)

/-- No subtraction wraps. -/
def NoWrap (log : List CountCall) : Prop :=
  ∀ filesize rSize, .subtract filesize rSize ∈ log → rSize ≤ filesize

/-- The bytes the first `k` passes read. -/
def readBefore (file : List UInt8) (passes : List (Outcome × Bulk)) (k : ℕ) : ℕ :=
  min ((passes.take k).map fun pass => min (pass.1.getD 0) readBufferSize).sum file.length

/-- The bytes pass `k` reads. -/
def readIn (file : List UInt8) (passes : List (Outcome × Bulk)) (k : ℕ) : ℕ :=
  readBefore file passes (k + 1) - readBefore file passes k

/-- The passes before `k` read, and transfer the whole of what they read. -/
def Reaches (file : List UInt8) (passes : List (Outcome × Bulk)) (k : ℕ) : Prop :=
  ∀ i pass, i < k → passes[i]? = some pass →
    pass.1 ≠ none ∧ pass.2.count (readIn file passes i) = readIn file passes i

/-- As long as less than the announced size has been read, a transfer moves at most what
is left of it. -/
def WithinAnnounced (filesize : ℕ) (file : List UInt8) (passes : List (Outcome × Bulk)) : Prop :=
  ∀ k pass, passes[k]? = some pass → Reaches file passes k → readBefore file passes k < filesize →
    pass.1 ≠ none → min pass.2.actual (readIn file passes k) ≤ filesize - readBefore file passes k

theorem readBefore_zero (file : List UInt8) (passes : List (Outcome × Bulk)) :
    readBefore file passes 0 = 0 := by
  simp [readBefore]

theorem readBefore_succ (file : List UInt8) (n : ℕ) (bulk : Bulk)
    (passes : List (Outcome × Bulk)) (k : ℕ) :
    readBefore file ((some n, bulk) :: passes) (k + 1) =
      (block file n).length + readBefore (file.drop (block file n).length) passes k := by
  simp only [readBefore, block, List.take_succ_cons, List.map_cons, List.sum_cons,
    Option.getD_some, List.length_take, List.length_drop]
  omega

theorem readIn_zero (file : List UInt8) (n : ℕ) (bulk : Bulk) (passes : List (Outcome × Bulk)) :
    readIn file ((some n, bulk) :: passes) 0 = (block file n).length := by
  rw [readIn, readBefore_succ, readBefore_zero, readBefore_zero]
  omega

theorem readIn_succ (file : List UInt8) (n : ℕ) (bulk : Bulk) (passes : List (Outcome × Bulk))
    (k : ℕ) :
    readIn file ((some n, bulk) :: passes) (k + 1) =
      readIn (file.drop (block file n).length) passes k := by
  rw [readIn, readBefore_succ, readBefore_succ, readIn]
  omega

/-- What a later pass reaches, the first one reaches if it goes on. -/
theorem reaches_succ_iff (file : List UInt8) (n : ℕ) (bulk : Bulk)
    (passes : List (Outcome × Bulk)) (k : ℕ) :
    Reaches file ((some n, bulk) :: passes) (k + 1) ↔
      bulk.count (block file n).length = (block file n).length ∧
        Reaches (file.drop (block file n).length) passes k := by
  constructor
  · intro h
    have hfirst := (h 0 (some n, bulk) (Nat.succ_pos k) rfl).2
    rw [readIn_zero] at hfirst
    refine ⟨hfirst, ?_⟩
    intro i pass hi hpass
    have hnext := h (i + 1) pass (by omega) hpass
    rwa [readIn_succ] at hnext
  · intro h i pass hi hpass
    cases i with
    | zero =>
      obtain rfl := Option.some.inj hpass
      refine ⟨nofun, ?_⟩
      rw [readIn_zero]
      exact h.1
    | succ i =>
      have hnext := h.2 i pass (by omega) hpass
      rwa [readIn_succ]

/-- The first pass stays within the announced size, and so does what follows it. -/
theorem withinAnnounced_cons_iff (filesize n : ℕ) (file : List UInt8) (bulk : Bulk)
    (passes : List (Outcome × Bulk)) (h : filesize ≠ 0) :
    WithinAnnounced filesize file ((some n, bulk) :: passes) ↔
      min bulk.actual (block file n).length ≤ filesize ∧
        (bulk.count (block file n).length = (block file n).length →
          WithinAnnounced (filesize - (block file n).length)
            (file.drop (block file n).length) passes) := by
  constructor
  · intro hall
    constructor
    · have hfirst := hall 0 (some n, bulk) rfl (fun i pass hi => absurd hi (Nat.not_lt_zero i))
        (by rw [readBefore_zero]; omega) nofun
      rwa [readIn_zero, readBefore_zero, Nat.sub_zero] at hfirst
    · intro hfull k pass hpass hreach hlt hread
      have hnext := hall (k + 1) pass hpass ((reaches_succ_iff _ _ _ _ _).mpr ⟨hfull, hreach⟩)
        (by rw [readBefore_succ]; omega) hread
      rw [readIn_succ, readBefore_succ] at hnext
      omega
  · intro hcons k pass hpass hreach hlt hread
    cases k with
    | zero =>
      obtain rfl := Option.some.inj hpass
      rw [readIn_zero, readBefore_zero, Nat.sub_zero]
      exact hcons.1
    | succ k =>
      obtain ⟨hfull, hreach⟩ := (reaches_succ_iff _ _ _ _ _).mp hreach
      rw [readBefore_succ] at hlt ⊢
      have hnext := hcons.2 hfull k pass hpass hreach (by omega) hread
      rw [readIn_succ]
      omega

theorem withinAnnounced_zero (file : List UInt8) (passes : List (Outcome × Bulk)) :
    WithinAnnounced 0 file passes := by
  intro k pass _ _ hlt
  exact absurd hlt (Nat.not_lt_zero _)

theorem withinAnnounced_failed (filesize : ℕ) (file : List UInt8) (bulk : Bulk)
    (passes : List (Outcome × Bulk)) : WithinAnnounced filesize file ((none, bulk) :: passes) := by
  intro k pass hpass hreach hlt hread
  cases k with
  | zero =>
    obtain rfl := Option.some.inj hpass
    exact absurd rfl hread
  | succ k => exact absurd rfl (hreach 0 (none, bulk) (Nat.succ_pos k) rfl).1

theorem noWrap_append_iff (l m : List CountCall) : NoWrap (l ++ m) ↔ NoWrap l ∧ NoWrap m := by
  simp only [NoWrap, List.mem_append, or_imp, forall_and]

/-- A transfer that is counted in full moves the whole of its block. -/
theorem Bulk.moved_of_counted (b : Bulk) (length : ℕ) (h : b.count length = length) :
    min b.actual length = length := by
  unfold Bulk.count at h
  split at h <;> omega

section PumpNotes
variable (filesize : ℕ) (data : List UInt8) (ret : ℤ)

theorem payload_transfer (actual : ℕ) :
    payload [.link (.fRead readBufferSize data), .dataOut data ret (min actual data.length : ℕ)] =
      data.take (min actual data.length) := by
  simp only [payload, CountCall.payload, List.flatMap_cons, List.flatMap_nil,
    Int.toNat_natCast, List.nil_append, List.append_nil]

theorem noWrap_transfer (actual : ℤ) :
    NoWrap [.link (.fRead readBufferSize data), .dataOut data ret actual] := by
  simp [NoWrap]

theorem payload_subtract (rSize : ℕ) : payload [.subtract filesize rSize] = [] := rfl

theorem noWrap_subtract_iff : NoWrap [.subtract filesize data.length] ↔ data.length ≤ filesize := by
  simp [NoWrap]

end PumpNotes

/-- What the loop moves stays within the announced size, and its count does not wrap,
exactly if each transfer it reaches does. -/
theorem countedPump_accounted_iff (passes : List (Outcome × Bulk)) (filesize : ℕ)
    (rest : List UInt8) (hsize : filesize < 2 ^ 32) :
    ((payload (countedPump filesize rest passes).log).length ≤ filesize ∧
        NoWrap (countedPump filesize rest passes).log) ↔
      WithinAnnounced filesize rest passes := by
  have hempty : ∀ filesize, (payload ([] : List CountCall)).length ≤ filesize ∧ NoWrap [] :=
    fun _ => ⟨Nat.zero_le _, by simp [NoWrap]⟩
  induction passes, filesize, rest using pumpLoop_induction with
  | finished passes rest =>
    rw [countedPump_finished]
    exact iff_of_true (hempty 0) (withinAnnounced_zero _ _)
  | waiting filesize rest hzero =>
    rw [countedPump, if_neg hzero]
    exact iff_of_true (hempty filesize) fun k pass hpass => by simp at hpass
  | failed bulk passes filesize rest hzero =>
    rw [countedPump_failed filesize rest bulk passes hzero]
    refine iff_of_true ⟨Nat.zero_le _, ?_⟩ (withinAnnounced_failed _ _ _ _)
    simp [NoWrap]
  | pass n bulk passes filesize rest hzero ih =>
    rw [countedPump_pass filesize n rest bulk passes hzero,
      withinAnnounced_cons_iff filesize n rest bulk passes hzero]
    have hblock : rest.take (min n readBufferSize) = block rest n := rfl
    rw [hblock] at ih
    generalize block rest n = data at ih ⊢
    rw [Run.after_log, payload_append, noWrap_append_iff, payload_transfer, List.length_append,
      List.length_take]
    by_cases hfull : bulk.count data.length = data.length
    · have hall := Bulk.moved_of_counted bulk data.length hfull
      rw [if_neg (not_not.mpr hfull), Run.after_log, payload_append, noWrap_append_iff,
        payload_subtract, List.nil_append, noWrap_subtract_iff, hall]
      by_cases hle : data.length ≤ filesize
      · have hcount : (filesize + 2 ^ 32 - data.length) % 2 ^ 32 = filesize - data.length := by
          omega
        rw [hcount] at ih ⊢
        have hrest := ih (Nat.lt_of_le_of_lt (Nat.sub_le _ _) hsize)
        constructor
        · intro h
          exact ⟨hle, fun _ => hrest.mp ⟨by omega, h.2.2.2⟩⟩
        · intro h
          obtain ⟨hpayload, hnoWrap⟩ := hrest.mpr (h.2 hfull)
          exact ⟨by omega, noWrap_transfer data _ _, hle, hnoWrap⟩
      · exact iff_of_false (fun h => hle h.2.2.1) (fun h => hle h.1)
    · have hnone : (payload ([] : List CountCall)).length = 0 := rfl
      rw [if_pos hfull, Run.pure_log, hnone]
      constructor
      · intro h
        exact ⟨by omega, fun hcount => absurd hcount hfull⟩
      · intro h
        exact ⟨by omega, noWrap_transfer data _ _, (hempty filesize).2⟩

/-- The loop makes a transfer exactly if there is a count and the first read works. -/
theorem countedPump_sends_iff (filesize : ℕ) (rest : List UInt8)
    (passes : List (Outcome × Bulk)) :
    (∃ data ret actual, .dataOut data ret actual ∈ (countedPump filesize rest passes).log) ↔
      filesize ≠ 0 ∧ ∃ n bulk later, passes = (some n, bulk) :: later := by
  by_cases hzero : filesize = 0
  · subst hzero
    simp [countedPump_finished]
  · cases passes with
    | nil => simp [countedPump, hzero]
    | cons pass passes =>
      obtain ⟨read, bulk⟩ := pass
      cases read with
      | none => simp [countedPump_failed filesize rest bulk passes hzero]
      | some n =>
        rw [countedPump_pass filesize n rest bulk passes hzero]
        apply iff_of_true
        · exact ⟨block rest n, bulk.ret, (min bulk.actual (block rest n).length : ℕ), by simp⟩
        · exact ⟨hzero, n, bulk, passes, rfl⟩

/-! ### The sizes of a run -/

/-- Data is sent only if the reported size is within the limit, no more of it than was
announced, and the remaining count stays above zero. -/
structure SizeAccounted (asicidSize : ℕ) (file : List UInt8) (env : PusbEnv) : Prop where
  limit : (∃ data ret actual, .dataOut data ret actual ∈ (countedSend asicidSize file env).log) →
    ∃ size, env.fSize = some size ∧ size ≤ maxSize
  announced : (payload (countedSend asicidSize file env).log).length ≤ env.filesize
  count : NoWrap (countedSend asicidSize file env).log

/-- pusb accounts for the size exactly if a check before the file fails, or the size as
reported is within the limit (or nothing is pumped) and the transfers keep within what
was announced. -/
theorem sizeAccounted_iff (asicidSize : ℕ) (file : List UInt8) (env : PusbEnv) :
    SizeAccounted asicidSize file env ↔
      (Prologue asicidSize env →
        ((env.filesize ≠ 0 ∧ ∃ n bulk later, env.passes = (some n, bulk) :: later) →
          ∃ size, env.fSize = some size ∧ size ≤ maxSize) ∧
        WithinAnnounced env.filesize file env.passes) := by
  by_cases hprologue : Prologue asicidSize env
  · have hsize : env.filesize < 2 ^ 32 := by
      unfold PusbEnv.filesize
      omega
    obtain ⟨before, later, hbefore, hlater, hlog⟩ := countedSend_log asicidSize file env hprologue
    have hsends := countedPump_sends_iff env.filesize file env.passes
    have haccounted := countedPump_accounted_iff env.passes env.filesize file hsize
    have hpayload : payload (countedSend asicidSize file env).log =
        payload (countedPump env.filesize file env.passes).log := by
      rw [hlog, payload_append, payload_append, payload_of_no_notes before hbefore,
        payload_of_no_notes later hlater, List.nil_append, List.append_nil]
    have hnotes : ∀ c, c.IsNote → (c ∈ (countedSend asicidSize file env).log ↔
        c ∈ (countedPump env.filesize file env.passes).log) := by
      intro c hnote
      rw [hlog, List.mem_append, List.mem_append]
      have hnotBefore : c ∉ before := fun hc => hbefore c hc hnote
      have hnotLater : c ∉ later := fun hc => hlater c hc hnote
      simp [hnotBefore, hnotLater]
    have hdata : ∀ data ret actual, .dataOut data ret actual ∈
        (countedSend asicidSize file env).log ↔ .dataOut data ret actual ∈
          (countedPump env.filesize file env.passes).log := fun data ret actual =>
      hnotes _ trivial
    have hcount : NoWrap (countedSend asicidSize file env).log ↔
        NoWrap (countedPump env.filesize file env.passes).log := by
      unfold NoWrap
      simp only [hnotes (.subtract _ _) trivial]
    rw [imp_iff_right hprologue, ← haccounted, ← hsends, ← hpayload, ← hcount]
    simp only [← hdata]
    constructor
    · intro h
      exact ⟨h.limit, h.announced, h.count⟩
    · intro h
      exact ⟨h.1, h.2.1, h.2.2⟩
  · have havoids := countedSend_avoids asicidSize file env hprologue
    refine iff_of_true ⟨?_, ?_, ?_⟩ (fun h => absurd h hprologue)
    · intro hsends
      obtain ⟨data, ret, actual, hc⟩ := hsends
      exact absurd trivial (havoids _ hc)
    · rw [payload_of_no_notes _ havoids]
      exact Nat.zero_le _
    · intro filesize rSize hc
      exact absurd trivial (havoids _ hc)

/-- f_size reports 2^32 + 1, and the first read delivers two bytes. -/
def hugeEnv : PusbEnv :=
  ⟨some (2 ^ 32 + 1), true, 0, ⟨0, 69⟩, ⟨0, 4⟩, ⟨0, 69⟩, ⟨0, 4⟩, ⟨0, 4⟩, [(some 4096, ⟨0, 4096⟩)],
    0, true⟩

/-- Two bytes are sent after a size word of 1. -/
theorem cut_size_sends_more :
    ¬ ∀ asicidSize file env, SizeAccounted asicidSize file env := by
  intro h
  have haccounted := (h 69 [1, 2] hugeEnv).announced
  exact absurd haccounted (by decide)

end OmapBootUtils.SizeAccounting
