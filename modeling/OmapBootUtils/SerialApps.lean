import OmapBootUtils.KermitTransfer
import OmapBootUtils.SerialPort

/-!
The mains of ukermit, ucmd and sysrq. Each opens and configures the port, runs
its transfer, command or key, and closes the port; they differ in which results
they look at on the way.
-/
namespace OmapBootUtils.SerialApps

open ScriptedRun LinkCalls SerialPort KermitTransfer

/-! ### ukermit -/

structure UkermitEnv where
  port : PortEnv
  sFlush : Bool
  send : KermitEnv

def ukermitBody (signedChar : Bool) (file : List UInt8) (env : UkermitEnv) : Link ℤ := do
  Run.emit (.sFlush (serialRet env.sFlush))
  let ret ← kSendData signedChar file env.send
  if ret ≠ 0 then closeAndReturn env.port ret else closePort env.port

def ukermitMain (signedChar : Bool) (file : List UInt8) (env : UkermitEnv) : Link ℤ :=
  withPort env.port (ukermitBody signedChar file env)

/-! ### ucmd -/

/-- The results of calloc and s_write in send_cmd, and what each s_getc reads. -/
structure UcmdEnv where
  port : PortEnv
  sFlush : Bool
  callocOk : Bool
  commandWrite : Outcome
  chars : List SerialRead

/-- The command and the enter key; a short s_write is no failure. -/
def sendCmd (cmd : List UInt8) (env : UcmdEnv) : Link ℤ :=
  if env.callocOk then do
    let buffer := cmd ++ [0x0A]
    let ret := moved buffer env.commandWrite
    Run.emit (.sWrite buffer ret)
    return if ret < 0 then serialFailed else serialOk
  else return serialFailed

/-- s_getc: x is 0 before the read, and stays 0 if nothing arrives. -/
def sGetc (read : SerialRead) : Link ℤ := do
  let got ← sRead 1 read
  return if readRet got < 0 then readRet got else ((got.getD []).headD 0).toNat

/-- The loop that waits for the expected string; a character that does not match sets
the index back to 0. -/
def getResponse (expected : List UInt8) : ℕ → List SerialRead → Link ℤ
  | matchIdx, [] => if matchIdx < expected.length then Run.block else return 0
  | matchIdx, read :: reads =>
      if matchIdx < expected.length then do
        let ret ← sGetc read
        if ret < 0 then return ret else
        let matchIdx := if UInt8.ofNat ret.toNat = expected.getD matchIdx 0 then matchIdx + 1 else 0
        getResponse expected matchIdx reads
      else return 0

def ucmdBody (command expect : List UInt8) (env : UcmdEnv) : Link ℤ := do
  Run.emit (.sFlush (serialRet env.sFlush))
  if !env.sFlush then closeAndReturn env.port serialFailed else do
    let ret ← sendCmd command env
    if ret ≠ serialOk then closeAndReturn env.port ret else do
      let ret ← getResponse expect 0 env.chars
      if ret ≠ serialOk then closeAndReturn env.port ret else closePort env.port

def ucmdMain (command expect : List UInt8) (env : UcmdEnv) : Link ℤ :=
  withPort env.port (ucmdBody command expect env)

/-! ### sysrq -/

/-- The results of s_break, which does not return a value when it succeeds, and of
s_write. -/
structure SysrqEnv where
  port : PortEnv
  sBreak : ℤ
  keyWrite : Outcome

def sendSysrq (sysrqKey : UInt8) (env : SysrqEnv) : Link ℤ := do
  Run.emit (.sBreak env.sBreak)
  if env.sBreak < 0 then return -1 else do
    let ret := moved [sysrqKey] env.keyWrite
    Run.emit (.sWrite [sysrqKey] ret)
    return if ret ≠ 1 then -1 else 0

/-- The result of send_sysrq is only printed. -/
def sysrqBody (sysrqKey : UInt8) (env : SysrqEnv) : Link ℤ := do
  let _ ← sendSysrq sysrqKey env
  closePort env.port

def sysrqMain (sysrqKey : UInt8) (env : SysrqEnv) : Link ℤ :=
  withPort env.port (sysrqBody sysrqKey env)

end OmapBootUtils.SerialApps
