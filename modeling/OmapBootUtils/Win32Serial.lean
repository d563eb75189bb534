import OmapBootUtils.CallMachine
import OmapBootUtils.KermitPacket
import OmapBootUtils.SerialGetc
import OmapBootUtils.SplitReads

/-!
The serial library on Windows. Its static variables are the name and the handle of
the port and the events of its two overlapped structures; all are zero at first, and
a handle is invalid only once s_open has failed or s_close was called. The results
of the Windows calls are scripted.
-/
namespace OmapBootUtils.Win32Serial

open LinkCalls CallMachine
open KermitPacket (charValue)
open SerialPort (readRet)
open SplitReads (rxHwBufSize readFileLoop win32Read)
open SerialGetc (win32Getc)

/-! ### The calls of Windows -/

def invalidHandleValue : ℤ := -1

/-- The fields of a DCB that s_configure sets. -/
structure Dcb where
  baudRate : ℕ
  fBinary : Bool
  fParity : Bool
  fOutxCtsFlow : Bool
  fOutxDsrFlow : Bool
  fDtrControl : ℕ
  fDsrSensitivity : Bool
  fTXContinueOnXoff : Bool
  fOutX : Bool
  fInX : Bool
  fErrorChar : Bool
  fNull : Bool
  fRtsControl : ℕ
  fAbortOnError : Bool
  parity : UInt8
  byteSize : UInt8
  stopBits : UInt8
  deriving DecidableEq, Repr

def dtrControlDisable : ℕ := 0
def rtsControlDisable : ℕ := 0
def noParity : UInt8 := 0

structure CommTimeouts where
  readIntervalTimeout : ℕ
  readTotalTimeoutMultiplier : ℕ
  readTotalTimeoutConstant : ℕ
  writeTotalTimeoutMultiplier : ℕ
  writeTotalTimeoutConstant : ℕ
  deriving DecidableEq, Repr

def maxDword : ℕ := 0xFFFFFFFF

def evRxchar : ℕ := 0x1
def evTxempty : ℕ := 0x4
def rEventMask : ℕ := evRxchar
def tEventMask : ℕ := evTxempty

/-- A call of Windows with its result; a call whose result is not looked at has none. -/
inductive WinCall where
  | createFile (name : List UInt8) (ret : ℤ)
  | createEvent (ret : ℤ)
  | closeHandle (handle : ℤ) (ret : Bool)
  | getCommState (handle : ℤ) (ret : Bool)
  | setCommState (handle : ℤ) (dcb : Dcb) (ret : Bool)
  | setupComm (handle : ℤ) (rx tx : ℕ) (ret : Bool)
  | setCommTimeouts (handle : ℤ) (timeouts : CommTimeouts) (ret : Bool)
  | setCommMask (handle : ℤ) (mask : ℕ)
  | clearCommError (handle : ℤ)
  | purgeComm (handle : ℤ)
  | cancelIo (handle : ℤ)
  | readFile (handle : ℤ) (size : ℕ) (got : List UInt8)
  | resetEvent (event : ℤ)
  | waitCommEvent (handle : ℤ)
  | writeFile (handle : ℤ) (data : List UInt8) (ret : Bool)
  | waitForSingleObject (event : ℤ)
  deriving DecidableEq, Repr

/-! ### The functions -/

/-- The static variables. -/
structure Lib where
  port : List UInt8
  hSerial : ℤ
  readEvent : ℤ
  writeEvent : ℤ
  deriving DecidableEq, Repr

/-- What a call returns, nothing while it has not returned, the calls of Windows it makes,
and the variables it leaves. -/
structure Outcome where
  ret : Option ℤ
  log : List WinCall
  lib : Lib
  deriving DecidableEq, Repr

/-- A call that gives up before it calls Windows. -/
def refused (lib : Lib) : Outcome := ⟨some serialFailed, [], lib⟩

def portSize : ℕ := 30
def comPortSize : ℕ := 20

/-- com_port before and after strcat. -/
def comPort (tPort : List UInt8) : List UInt8 := [0x5C, 0x5C, 0x2E, 0x5C] ++ tPort

structure OpenResults where
  createFile : ℤ
  readEvent : ℤ
  writeEvent : ℤ

/-- The check is made on the name of the port before; there is no result when strcat writes
outside com_port. -/
def sOpen (lib : Lib) (tPort : List UInt8) (r : OpenResults) : Option Outcome :=
  if portSize ≤ lib.port.length then some (refused lib)
  else if comPortSize < (comPort tPort).length + 1 then none
  else
    let lib := { lib with hSerial := r.createFile }
    let log := [.createFile (comPort tPort) r.createFile]
    if r.createFile = invalidHandleValue then some ⟨some serialFailed, log, lib⟩
    else
      let log := log ++ [.createEvent r.readEvent, .createEvent r.writeEvent]
      some ⟨some serialOk, log,
        { lib with port := tPort, readEvent := r.readEvent, writeEvent := r.writeEvent }⟩

/-- What GetCommState got, with the new settings. -/
def requested (dcb : Dcb) (sBaudRate : ℕ) (sParity sStopBits sDataBits : UInt8) : Dcb :=
  { dcb with
    baudRate := sBaudRate
    fBinary := true
    fParity := sParity ≠ noParity
    fOutxCtsFlow := false
    fOutxDsrFlow := false
    fDtrControl := dtrControlDisable
    fDsrSensitivity := false
    fTXContinueOnXoff := false
    fOutX := false
    fInX := false
    fErrorChar := false
    fNull := false
    fRtsControl := rtsControlDisable
    fAbortOnError := false
    parity := sParity
    byteSize := sDataBits
    stopBits := sStopBits }

/-- A read returns with what there is; a write has no limit. -/
def timeouts : CommTimeouts := ⟨maxDword, 0, 0, 0, 0⟩

structure ConfigureResults where
  getCommState : Bool
  dcb : Dcb
  setCommState : Bool
  setupComm : Bool
  setCommTimeouts : Bool

def sConfigure (lib : Lib) (sBaudRate : ℕ) (sParity sStopBits sDataBits : UInt8)
    (r : ConfigureResults) : Outcome :=
  let h := lib.hSerial
  let dcb := requested r.dcb sBaudRate sParity sStopBits sDataBits
  let log := [.getCommState h r.getCommState]
  if !r.getCommState then ⟨some serialFailed, log, lib⟩
  else
    let log := log ++ [.setCommState h dcb r.setCommState]
    if !r.setCommState then ⟨some serialFailed, log, lib⟩
    else
      let log := log ++ [.setupComm h rxHwBufSize rxHwBufSize r.setupComm]
      if !r.setupComm then ⟨some serialFailed, log, lib⟩
      else
        let log := log ++ [.setCommTimeouts h timeouts r.setCommTimeouts]
        if !r.setCommTimeouts then ⟨some serialFailed, log, lib⟩
        else ⟨some serialOk, log ++ [.clearCommError h, .purgeComm h], lib⟩

def sFlush (lib : Lib) : Outcome :=
  let h := lib.hSerial
  ⟨some 0, [.clearCommError h, .cancelIo h, .purgeComm h], lib⟩

structure CloseResults where
  serial : Bool
  readEvent : Bool
  writeEvent : Bool

/-- The events keep their values. -/
def sClose (lib : Lib) (r : CloseResults) : Outcome :=
  let h := lib.hSerial
  let port := if h ≠ invalidHandleValue then
      [.setCommMask h (rEventMask ||| tEventMask), .cancelIo h, .purgeComm h,
        .closeHandle h r.serial]
    else []
  let readEvent := if lib.readEvent ≠ 0 then [.closeHandle lib.readEvent r.readEvent] else []
  let writeEvent := if lib.writeEvent ≠ 0 then [.closeHandle lib.writeEvent r.writeEvent] else []
  ⟨some serialOk, port ++ readEvent ++ writeEvent, { lib with hSerial := invalidHandleValue }⟩

/-- The names reset_comm_error puts into its text for the errors of ClearCommError. -/
def errorNames : List (ℕ × ℕ) :=
  [(0x800, 4), (0x400, 4), (0x1000, 4), (0x200, 4), (0x8000, 5), (0x10, 6), (0x8, 6), (0x1, 7),
    (0x100, 7), (0x2, 8), (0x4, 9)]

def errStrSize : ℕ := 20

/-- The length of the text for the errors. -/
def errStrLength (errors : UInt32) : ℕ :=
  (errorNames.map fun n => if errors &&& UInt32.ofNat n.1 ≠ 0 then n.2 else 0).sum

/-- The results of ClearCommError. -/
structure CommErrors where
  errors : UInt32
  cbInQue : ℕ

/-- Nothing when the names do not fit into the text. -/
def resetCommError (r : CommErrors) : Option ℤ :=
  if errStrSize < errStrLength r.errors + 1 then none
  else some (if r.errors.toNat < 2 ^ 31 then r.errors.toNat else r.errors.toNat - 2 ^ 32)

/-- The loop of s_read: the calls, and once it is left the size of the last read and the
size of all. -/
def readLoop (h : ℤ) : ℕ → ℕ → List (List UInt8) → List WinCall × Option (ℕ × ℕ)
  | _, _, [] => ([], none)
  | sizeToRead, totRead, arrived :: reads =>
      let got := arrived.take sizeToRead
      let left := sizeToRead - got.length
      let total := totRead + got.length
      if 0 < left then
        let rest := readLoop h left total reads
        (.readFile h sizeToRead got :: rest.1, rest.2)
      else ([.readFile h sizeToRead got], some (got.length, total))

structure ReadResults where
  reads : List (List UInt8)
  pending : Bool
  commErrors : CommErrors

def sRead (lib : Lib) (size : ℕ) (r : ReadResults) : Option Outcome :=
  let h := lib.hSerial
  if h = invalidHandleValue then some (refused lib)
  else if size = 0 then some ⟨some serialOk, [], lib⟩
  else if rxHwBufSize ≤ size then some (refused lib)
  else match readLoop h size 0 r.reads with
    | (log, none) => some ⟨none, log, lib⟩
    | (log, some (last, total)) =>
        if last = 0 ∧ r.pending then
          (resetCommError r.commErrors).map fun _ =>
            ⟨some total, log ++ [.clearCommError h, .purgeComm h], lib⟩
        else some ⟨some total, log, lib⟩

/-- The loop of s_write is left after one pass, since what WriteFile wrote is replaced by
what it was asked to; the size is not 0 after it. -/
def sWrite (lib : Lib) (data : List UInt8) (writeFile : Bool) : Outcome :=
  let h := lib.hSerial
  if h = invalidHandleValue then refused lib
  else if data.length = 0 then ⟨some serialOk, [], lib⟩
  else if rxHwBufSize ≤ data.length then refused lib
  else
    let wait := if !writeFile then [.waitForSingleObject lib.writeEvent] else []
    ⟨some data.length, [.resetEvent lib.writeEvent, .setCommMask h tEventMask, .waitCommEvent h,
      .writeFile h data writeFile] ++ wait ++ [.setCommMask h rEventMask], lib⟩

def sReadRemaining (lib : Lib) (r : CommErrors) : Option Outcome :=
  (resetCommError r).map fun ret =>
    ⟨some (if ret < 0 then ret else r.cbInQue), [.clearCommError lib.hSerial], lib⟩

/-- x is a signed char, and 0 before the read. -/
def sGetc (lib : Lib) (r : ReadResults) : Option Outcome :=
  (sRead lib 1 r).map fun o =>
    { o with ret := o.ret.map fun ret =>
        if ret < 0 then ret else charValue true ((r.reads.flatten).headD 0) }

def sPutc (lib : Lib) (x : UInt8) (writeFile : Bool) : Outcome :=
  let o := sWrite lib [x] writeFile
  { o with ret := o.ret.map fun ret => if ret < 0 then ret else charValue true x }

def sBreak (lib : Lib) : Outcome := refused lib

/-! ### Sequences of calls -/

/-- A call of the library with its arguments and the results of the calls of Windows. -/
inductive LibCall where
  | sOpen (tPort : List UInt8) (r : OpenResults)
  | sConfigure (sBaudRate : ℕ) (sParity sStopBits sDataBits : UInt8) (r : ConfigureResults)
  | sFlush
  | sClose (r : CloseResults)
  | sRead (size : ℕ) (r : ReadResults)
  | sWrite (data : List UInt8) (writeFile : Bool)
  | sReadRemaining (r : CommErrors)
  | sGetc (r : ReadResults)
  | sPutc (x : UInt8) (writeFile : Bool)
  | sBreak

/-- Nothing when the call writes outside an array. -/
def perform (lib : Lib) : LibCall → Option Outcome
  | .sOpen tPort r => sOpen lib tPort r
  | .sConfigure sBaudRate sParity sStopBits sDataBits r =>
      some (sConfigure lib sBaudRate sParity sStopBits sDataBits r)
  | .sFlush => some (sFlush lib)
  | .sClose r => some (sClose lib r)
  | .sRead size r => sRead lib size r
  | .sWrite data writeFile => some (sWrite lib data writeFile)
  | .sReadRemaining r => sReadRemaining lib r
  | .sGetc r => sGetc lib r
  | .sPutc x writeFile => some (sPutc lib x writeFile)
  | .sBreak => some (sBreak lib)

/-! ### The reads on their own -/

/-- The bytes that the ReadFile calls put in the buffer. -/
def bytesRead (log : List WinCall) : List UInt8 :=
  log.flatMap fun
    | .readFile _ _ got => got
    | _ => []

/-- The loop gets what the loop over the arrivals gets. -/
theorem readLoop_readFileLoop (h : ℤ) (reads : List (List UInt8)) (sizeToRead : ℕ)
    (buffer : List UInt8) :
    ((readLoop h sizeToRead buffer.length reads).2.map Prod.snd) =
        (readFileLoop sizeToRead buffer reads).map (fun r => r.1.length) ∧
      ∀ r, readFileLoop sizeToRead buffer reads = some r →
        buffer ++ bytesRead (readLoop h sizeToRead buffer.length reads).1 = r.1 := by
  induction reads generalizing sizeToRead buffer with
  | nil => exact ⟨rfl, fun r hr => by cases hr⟩
  | cons arrived reads ih =>
    have hlen : buffer.length + (arrived.take sizeToRead).length =
        (buffer ++ arrived.take sizeToRead).length := List.length_append.symm
    rw [readLoop, readFileLoop, hlen]
    by_cases hleft : 0 < sizeToRead - (arrived.take sizeToRead).length
    · obtain ⟨hret, hbytes⟩ := ih (sizeToRead - (arrived.take sizeToRead).length)
        (buffer ++ arrived.take sizeToRead)
      simp only [hleft, if_true]
      refine ⟨hret, fun r hr => ?_⟩
      rw [← hbytes r hr]
      simp [bytesRead]
    · simp only [hleft, if_false]
      refine ⟨rfl, fun r hr => ?_⟩
      rw [← Option.some.inj hr]
      simp [bytesRead]

/-- What s_read of the library returns and reads is what its reads on their own do. -/
theorem sRead_win32Read (lib : Lib) (size : ℕ) (r : ReadResults) (o : Outcome)
    (hopen : lib.hSerial ≠ invalidHandleValue) (h : sRead lib size r = some o) :
    o.ret = (win32Read size r.reads).map (fun p => p.1.ret) ∧
      ∀ p, win32Read size r.reads = some p → bytesRead o.log = p.1.buffer := by
  rw [sRead, if_neg hopen] at h
  rw [win32Read]
  by_cases hzero : size = 0
  · rw [if_pos hzero] at h ⊢
    obtain rfl := Option.some.inj h
    exact ⟨rfl, fun p hp => by rw [← Option.some.inj hp]; rfl⟩
  · by_cases hlarge : rxHwBufSize ≤ size
    · rw [if_neg hzero, if_pos hlarge] at h ⊢
      obtain rfl := Option.some.inj h
      exact ⟨rfl, fun p hp => by rw [← Option.some.inj hp]; rfl⟩
    · rw [if_neg hzero, if_neg hlarge] at h ⊢
      obtain ⟨hret, hbytes⟩ := readLoop_readFileLoop lib.hSerial r.reads size []
      rw [List.length_nil] at hret hbytes
      rcases hrun : readLoop lib.hSerial size 0 r.reads with ⟨log, exit⟩
      rw [hrun] at h hret hbytes
      cases hloop : readFileLoop size [] r.reads with
      | none =>
        rw [hloop] at hret
        cases exit with
        | none =>
          obtain rfl := Option.some.inj h
          exact ⟨rfl, fun p hp => by cases hp⟩
        | some exit => cases hret
      | some result =>
        rw [hloop] at hret
        cases exit with
        | none => cases hret
        | some exit =>
          obtain ⟨last, total⟩ := exit
          have htotal : total = result.1.length := Option.some.inj hret
          have hread := hbytes result hloop
          rw [List.nil_append] at hread
          simp only at h
          split at h
          · obtain ⟨_, -, rfl⟩ := Option.map_eq_some_iff.mp h
            refine ⟨by rw [htotal]; rfl, fun p hp => ?_⟩
            rw [← Option.some.inj hp]
            simpa [bytesRead] using hread
          · obtain rfl := Option.some.inj h
            refine ⟨by rw [htotal]; rfl, fun p hp => ?_⟩
            rw [← Option.some.inj hp]
            exact hread

/-- What s_getc of the library returns is what it makes of the byte read, or of an error. -/
theorem sGetc_win32Getc (lib : Lib) (r : ReadResults) (o : Outcome) (ret : ℤ)
    (h : sGetc lib r = some o) (hret : o.ret = some ret) :
    ret = win32Getc
      (if lib.hSerial = invalidHandleValue then none else some (r.reads.flatten.take 1)) := by
  obtain ⟨read, hread, rfl⟩ := Option.map_eq_some_iff.mp h
  obtain ⟨count, hcount, rfl⟩ := Option.map_eq_some_iff.mp hret
  by_cases hopen : lib.hSerial = invalidHandleValue
  · rw [sRead, if_pos hopen] at hread
    obtain rfl := Option.some.inj hread
    obtain rfl := Option.some.inj hcount
    rw [if_pos hopen]
    rfl
  · obtain ⟨hbytes, -⟩ := sRead_win32Read lib 1 r read hopen hread
    rw [hcount, win32Read, if_neg Nat.one_ne_zero, if_neg (by decide), Option.map_map] at hbytes
    obtain ⟨result, -, hlength⟩ := Option.map_eq_some_iff.mp hbytes.symm
    have hcount_nonneg : ¬ count < 0 := by
      rw [← hlength]
      exact Int.not_lt.mpr (Int.natCast_nonneg _)
    have hret_nonneg : ¬ readRet ((some (r.reads.flatten.take 1)).map (List.take 1)) < 0 :=
      Int.not_lt.mpr (Int.natCast_nonneg _)
    rw [if_neg hcount_nonneg, if_neg hopen, win32Getc, if_neg hret_nonneg]
    cases r.reads.flatten <;> rfl

end OmapBootUtils.Win32Serial
