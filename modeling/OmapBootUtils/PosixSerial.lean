import OmapBootUtils.CallMachine
import OmapBootUtils.KermitPacket
import OmapBootUtils.SerialPort

/-!
The serial library on POSIX. Its static variables are the descriptor, with 0 for a
closed port, the terminal settings s_configure saved for s_close, and those it set.
The results of the system calls are scripted; the settings of the open port are kept
beside the variables, and change when a tcsetattr succeeds.
-/
namespace OmapBootUtils.PosixSerial

open LinkCalls SerialPort CallMachine

/-! ### Terminal settings -/

/-- struct termios. -/
structure Termios where
  cIflag : UInt32
  cOflag : UInt32
  cCflag : UInt32
  cLflag : UInt32
  cLine : UInt8
  cCc : Vector UInt8 32
  cIspeed : UInt32
  cOspeed : UInt32
  deriving DecidableEq, Repr

/-- A static struct termios before it is used. -/
def zeroTermios : Termios := ⟨0, 0, 0, 0, 0, Vector.replicate 32 0, 0, 0⟩

/-! The values of termios.h on Linux. -/

def ignbrk : UInt32 := 0x1
def ignpar : UInt32 := 0x4
def ibaud0 : UInt32 := 0x80000000
def cs5 : UInt32 := 0x0
def cs6 : UInt32 := 0x10
def cs7 : UInt32 := 0x20
def cs8 : UInt32 := 0x30
def cstopb : UInt32 := 0x40
def cread : UInt32 := 0x80
def parenb : UInt32 := 0x100
def parodd : UInt32 := 0x200
def clocal : UInt32 := 0x800
def cbaud : UInt32 := 0x100F
def b57600 : UInt32 := 0x1001
def b115200 : UInt32 := 0x1002

def cfsetospeed (tio : Termios) (speed : UInt32) : Termios :=
  { tio with cCflag := tio.cCflag &&& ~~~cbaud ||| speed, cOspeed := speed }

/-- For a speed other than B0. -/
def cfsetispeed (tio : Termios) (speed : UInt32) : Termios :=
  { tio with
    cIflag := tio.cIflag &&& ~~~ibaud0
    cCflag := tio.cCflag &&& ~~~cbaud ||| speed
    cIspeed := speed }

def setVmin (tio : Termios) (v : UInt8) : Termios := { tio with cCc := tio.cCc.set 6 v }
def setVtime (tio : Termios) (v : UInt8) : Termios := { tio with cCc := tio.cCc.set 5 v }
def setVswtc (tio : Termios) (v : UInt8) : Termios := { tio with cCc := tio.cCc.set 7 v }

def vtimeSet : UInt8 := 5

/-- The switches of s_configure on its arguments, with the settings as they are changed
when one of them gives up. -/
def requested (tio : Termios) (sBaudRate : ℕ) (sParity sStopBits sDataBits : UInt8) :
    Bool × Termios :=
  let speed := if sBaudRate = 57600 then some b57600
    else if sBaudRate = 115200 then some b115200 else none
  match speed with
  | none => (false, tio)
  | some speed =>
    let tio := cfsetispeed (cfsetospeed tio speed) speed
    let tio := { tio with cCflag := tio.cCflag &&& ~~~(cs5 ||| cs6 ||| cs7 ||| cs8) }
    let size := if sDataBits = 5 then some cs5 else if sDataBits = 6 then some cs6
      else if sDataBits = 7 then some cs7 else if sDataBits = 8 then some cs8 else none
    match size with
    | none => (false, tio)
    | some size =>
      let tio := { tio with cCflag := tio.cCflag ||| size }
      let stop := if sStopBits = 0 then some (tio.cCflag &&& ~~~cstopb)
        else if sStopBits = 2 then some (tio.cCflag ||| cstopb) else none
      match stop with
      | none => (false, tio)
      | some cCflag =>
        let tio := { tio with
          cCflag := cCflag &&& ~~~(parenb ||| parodd)
          cIflag := tio.cIflag &&& ~~~ignpar }
        let parity :=
          if sParity = 1 then some (tio.cCflag ||| (parenb ||| parodd), tio.cIflag ||| ignpar)
          else if sParity = 2 then some (tio.cCflag ||| parenb, 0)
          else if sParity = 0 then some (tio.cCflag, tio.cIflag) else none
        match parity with
        | none => (false, tio)
        | some (cCflag, cIflag) =>
          let tio := { tio with
            cIflag := cIflag ||| ignbrk
            cCflag := cCflag ||| (clocal ||| cread)
            cOflag := 0
            cLflag := 0 }
          (true, setVswtc (setVmin (setVtime tio vtimeSet) 1) 0)

/-! ### The calls of the library -/

/-- A system call with its result. -/
inductive SysCall where
  | system (ret : ℤ)
  | openPort (ret : ℤ)
  | tcgetattr (fd ret : ℤ)
  | tcsetattr (fd : ℤ) (tio : Termios) (ret : ℤ)
  | tcflush (fd ret : ℤ)
  | read (fd : ℤ) (size : ℕ) (got : SerialRead)
  | write (fd : ℤ) (data : List UInt8) (ret : ℤ)
  | tcdrain (fd ret : ℤ)
  | setBreak (fd ret : ℤ)
  | clearBreak (fd ret : ℤ)
  | close (fd ret : ℤ)
  deriving DecidableEq, Repr

/-- The static variables, and the settings of the port that is open. -/
structure Lib where
  fd : ℤ
  oldtio : Termios
  newtio : Termios
  tio : Termios
  deriving DecidableEq, Repr

/-- What a call returns, the system calls it makes, and the state it leaves. -/
structure Outcome where
  ret : ℤ
  log : List SysCall
  lib : Lib
  deriving DecidableEq, Repr

/-- A call on a closed port. -/
def refused (lib : Lib) : Outcome := ⟨serialFailed, [], lib⟩

/-- The state after a tcsetattr. -/
def Lib.apply (lib : Lib) (tio : Termios) (ret : ℤ) : Lib :=
  if ret < 0 then lib else { lib with tio := tio }

/-- The results of both lsof commands and of open, and the settings of the port opened. -/
structure OpenResults where
  lsof : ℤ
  lsofShown : ℤ
  openRet : ℤ
  tio : Termios

def sOpen (lib : Lib) (r : OpenResults) : Outcome :=
  if lib.fd ≠ 0 then ⟨serialFailed, [], lib⟩
  else if r.lsof = 0 then ⟨serialFailed, [.system r.lsof, .system r.lsofShown], lib⟩
  else
    let log := [.system r.lsof, .openPort r.openRet]
    let lib := { lib with fd := r.openRet }
    if r.openRet < 0 then ⟨serialFailed, log, lib⟩
    else ⟨serialOk, log, { lib with tio := r.tio }⟩

structure ConfigureResults where
  getOld : ℤ
  getNew : ℤ
  tcflush : ℤ
  tcsetattr : ℤ

def sConfigure (lib : Lib) (sBaudRate : ℕ) (sParity sStopBits sDataBits : UInt8)
    (r : ConfigureResults) : Outcome :=
  if lib.fd = 0 then refused lib
  else if r.getOld < 0 then ⟨serialFailed, [.tcgetattr lib.fd r.getOld], lib⟩
  else
    let lib := { lib with oldtio := lib.tio }
    let log := [.tcgetattr lib.fd r.getOld, .tcgetattr lib.fd r.getNew]
    if r.getNew < 0 then ⟨serialFailed, log, lib⟩
    else
      let (known, newtio) := requested lib.tio sBaudRate sParity sStopBits sDataBits
      let lib := { lib with newtio := newtio }
      if !known then ⟨serialFailed, log, lib⟩
      else
        let log := log ++ [.tcflush lib.fd r.tcflush]
        if r.tcflush < 0 then ⟨serialFailed, log, lib⟩
        else
          let log := log ++ [.tcsetattr lib.fd newtio r.tcsetattr]
          let lib := lib.apply newtio r.tcsetattr
          if r.tcsetattr < 0 then ⟨serialFailed, log, lib⟩ else ⟨serialOk, log, lib⟩

def sFlush (lib : Lib) (tcflush : ℤ) : Outcome :=
  if lib.fd = 0 then refused lib
  else if tcflush < 0 then ⟨serialFailed, [.tcflush lib.fd tcflush], lib⟩
  else ⟨serialOk, [.tcflush lib.fd tcflush], lib⟩

structure CloseResults where
  tcsetattr : ℤ
  tcflush : ℤ
  close : ℤ

/-- The descriptor is gone whatever close returns. -/
def sClose (lib : Lib) (r : CloseResults) : Outcome :=
  if lib.fd = 0 then refused lib
  else
    let log := [.tcsetattr lib.fd lib.oldtio r.tcsetattr]
    let lib := lib.apply lib.oldtio r.tcsetattr
    if r.tcsetattr < 0 then ⟨serialFailed, log, lib⟩
    else
      let log := log ++ [.tcflush lib.fd r.tcflush, .close lib.fd r.close]
      let lib := { lib with fd := 0 }
      if r.close < 0 then ⟨serialFailed, log, lib⟩ else ⟨serialOk, log, lib⟩

structure ReadResults where
  tcsetattr : ℤ
  read : SerialRead

/-- The result of tcsetattr is not looked at. -/
def sRead (lib : Lib) (size : ℕ) (r : ReadResults) : Outcome :=
  if lib.fd = 0 then refused lib
  else
    let lib := { lib with newtio := setVtime (setVmin lib.newtio (UInt8.ofNat size)) vtimeSet }
    let got := r.read.map (List.take size)
    let log := [.tcsetattr lib.fd lib.newtio r.tcsetattr, .read lib.fd size got]
    ⟨readRet got, log, lib.apply lib.newtio r.tcsetattr⟩

structure WriteResults where
  write : ℤ
  tcdrain : ℤ

def sWrite (lib : Lib) (data : List UInt8) (r : WriteResults) : Outcome :=
  if lib.fd = 0 then refused lib
  else if r.write < 0 then ⟨serialFailed, [.write lib.fd data r.write], lib⟩
  else
    let log := [.write lib.fd data r.write, .tcdrain lib.fd r.tcdrain]
    if r.tcdrain < 0 then ⟨r.tcdrain, log, lib⟩ else ⟨r.write, log, lib⟩

def sReadRemaining (lib : Lib) : Outcome :=
  if lib.fd = 0 then refused lib else ⟨0, [], lib⟩

/-- x is 0 before the read. -/
def sGetc (lib : Lib) (r : ReadResults) : Outcome :=
  let o := sRead lib 1 r
  if o.ret < 0 then o
  else { o with ret := (((r.read.map (List.take 1)).getD []).headD 0).toNat }

/-- The character that is returned is a plain char. -/
def sPutc (signedChar : Bool) (lib : Lib) (x : UInt8) (r : WriteResults) : Outcome :=
  let o := sWrite lib [x] r
  if o.ret < 0 then o else { o with ret := KermitPacket.charValue signedChar x }

/-- The results of both ioctls, and what is in the register of the result when s_break ends
without a return statement. -/
structure BreakResults where
  setBreak : ℤ
  clearBreak : ℤ
  unspecified : ℤ

def sBreak (lib : Lib) (r : BreakResults) : Outcome :=
  if lib.fd = 0 then refused lib
  else if r.setBreak < 0 then ⟨r.setBreak, [.setBreak lib.fd r.setBreak], lib⟩
  else
    let log := [.setBreak lib.fd r.setBreak, .clearBreak lib.fd r.clearBreak]
    if r.clearBreak < 0 then ⟨r.clearBreak, log, lib⟩ else ⟨r.unspecified, log, lib⟩

/-! ### Sequences of calls -/

/-- A call of the library with its arguments and the results of its system calls. -/
inductive LibCall where
  | sOpen (r : OpenResults)
  | sConfigure (sBaudRate : ℕ) (sParity sStopBits sDataBits : UInt8) (r : ConfigureResults)
  | sFlush (tcflush : ℤ)
  | sClose (r : CloseResults)
  | sRead (size : ℕ) (r : ReadResults)
  | sWrite (data : List UInt8) (r : WriteResults)
  | sReadRemaining
  | sGetc (r : ReadResults)
  | sPutc (signedChar : Bool) (x : UInt8) (r : WriteResults)
  | sBreak (r : BreakResults)

def perform (lib : Lib) : LibCall → Outcome
  | .sOpen r => sOpen lib r
  | .sConfigure sBaudRate sParity sStopBits sDataBits r =>
      sConfigure lib sBaudRate sParity sStopBits sDataBits r
  | .sFlush tcflush => sFlush lib tcflush
  | .sClose r => sClose lib r
  | .sRead size r => sRead lib size r
  | .sWrite data r => sWrite lib data r
  | .sReadRemaining => sReadRemaining lib
  | .sGetc r => sGetc lib r
  | .sPutc signedChar x r => sPutc signedChar lib x r
  | .sBreak r => sBreak lib r

def libMachine : Machine Lib LibCall SysCall where
  next lib c := (perform lib c).lib
  events lib c := (perform lib c).log

/-! ### What one call does -/

/-- The call neither opens nor closes a descriptor. -/
structure KeepsPort (lib : Lib) (o : Outcome) : Prop where
  fd : o.lib.fd = lib.fd
  notOpened : ∀ ret, .openPort ret ∉ o.log
  notClosed : ∀ fd ret, .close fd ret ∉ o.log

section Keeps
variable (lib : Lib)

@[simp] theorem apply_fd (tio : Termios) (ret : ℤ) : (lib.apply tio ret).fd = lib.fd := by
  unfold Lib.apply
  split <;> rfl

@[simp] theorem apply_oldtio (tio : Termios) (ret : ℤ) :
    (lib.apply tio ret).oldtio = lib.oldtio := by
  unfold Lib.apply
  split <;> rfl

/-- How s_open ends. -/
inductive OpenEnd (r : OpenResults) : Prop
  | alreadyOpen (hfd : lib.fd ≠ 0) (h : sOpen lib r = refused lib)
  | used (hfd : lib.fd = 0)
      (h : sOpen lib r = ⟨serialFailed, [.system r.lsof, .system r.lsofShown], lib⟩)
  | failed (hfd : lib.fd = 0) (hret : r.openRet < 0)
      (h : sOpen lib r = ⟨serialFailed, [.system r.lsof, .openPort r.openRet],
        { lib with fd := r.openRet }⟩)
  | opened (hfd : lib.fd = 0) (hret : ¬ r.openRet < 0)
      (h : sOpen lib r = ⟨serialOk, [.system r.lsof, .openPort r.openRet],
        { lib with fd := r.openRet, tio := r.tio }⟩)

theorem sOpen_end (r : OpenResults) : OpenEnd lib r := by
  by_cases hfd : lib.fd = 0
  · by_cases hlsof : r.lsof = 0
    · exact .used hfd (by simp [sOpen, hfd, hlsof])
    · by_cases hret : r.openRet < 0
      · exact .failed hfd hret (by simp [sOpen, hfd, hlsof, hret])
      · exact .opened hfd hret (by simp [sOpen, hfd, hlsof, hret])
  · exact .alreadyOpen hfd (by simp [sOpen, refused, hfd])

/-- How s_close ends. -/
inductive CloseEnd (r : CloseResults) : Prop
  | notOpen (hfd : lib.fd = 0) (h : sClose lib r = refused lib)
  | kept (hfd : lib.fd ≠ 0)
      (h : sClose lib r = ⟨serialFailed, [.tcsetattr lib.fd lib.oldtio r.tcsetattr], lib⟩)
  | closed (hfd : lib.fd ≠ 0)
      (h : sClose lib r = ⟨if r.close < 0 then serialFailed else serialOk,
        [.tcsetattr lib.fd lib.oldtio r.tcsetattr, .tcflush lib.fd r.tcflush,
          .close lib.fd r.close],
        { lib with fd := 0, tio := lib.oldtio }⟩)

theorem sClose_end (r : CloseResults) : CloseEnd lib r := by
  by_cases hfd : lib.fd = 0
  · exact .notOpen hfd (by simp [sClose, hfd])
  · by_cases hset : r.tcsetattr < 0
    · exact .kept hfd (by simp [sClose, Lib.apply, hfd, hset])
    · apply CloseEnd.closed hfd
      by_cases hclose : r.close < 0 <;> simp [sClose, Lib.apply, hfd, hset, hclose]

theorem refused_keeps : KeepsPort lib (refused lib) := by
  constructor <;> simp [refused]

theorem sConfigure_keeps (sBaudRate : ℕ) (sParity sStopBits sDataBits : UInt8)
    (r : ConfigureResults) :
    KeepsPort lib (sConfigure lib sBaudRate sParity sStopBits sDataBits r) := by
  unfold sConfigure
  split
  · exact refused_keeps lib
  · split
    · constructor <;> simp
    · dsimp only
      split
      · constructor <;> simp
      · split
        · constructor <;> simp
        · split
          · constructor <;> simp
          · split <;> constructor <;> simp

theorem sFlush_keeps (tcflush : ℤ) : KeepsPort lib (sFlush lib tcflush) := by
  unfold sFlush
  split
  · exact refused_keeps lib
  · split <;> constructor <;> simp

theorem sRead_keeps (size : ℕ) (r : ReadResults) : KeepsPort lib (sRead lib size r) := by
  unfold sRead
  split
  · exact refused_keeps lib
  · constructor <;> simp

theorem sWrite_keeps (data : List UInt8) (r : WriteResults) :
    KeepsPort lib (sWrite lib data r) := by
  unfold sWrite
  split
  · exact refused_keeps lib
  · split
    · constructor <;> simp
    · dsimp only
      split <;> constructor <;> simp

theorem sReadRemaining_keeps : KeepsPort lib (sReadRemaining lib) := by
  unfold sReadRemaining
  split <;> constructor <;> simp [refused]

theorem sGetc_keeps (r : ReadResults) : KeepsPort lib (sGetc lib r) := by
  have hread := sRead_keeps lib 1 r
  unfold sGetc
  dsimp only
  split
  · exact hread
  · exact ⟨hread.fd, hread.notOpened, hread.notClosed⟩

theorem sPutc_keeps (signedChar : Bool) (x : UInt8) (r : WriteResults) :
    KeepsPort lib (sPutc signedChar lib x r) := by
  have hwrite := sWrite_keeps lib [x] r
  unfold sPutc
  dsimp only
  split
  · exact hwrite
  · exact ⟨hwrite.fd, hwrite.notOpened, hwrite.notClosed⟩

theorem sBreak_keeps (r : BreakResults) : KeepsPort lib (sBreak lib r) := by
  unfold sBreak
  split
  · exact refused_keeps lib
  · split
    · constructor <;> simp
    · dsimp only
      split <;> constructor <;> simp

end Keeps

end OmapBootUtils.PosixSerial
