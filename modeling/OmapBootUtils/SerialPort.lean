import OmapBootUtils.LinkCalls
import OmapBootUtils.ReleasedRuns

/-!
What the mains of the serial tools have in common: they open the port, configure
it, run, and close it again. s_close is the only call that puts the terminal
settings saved by s_configure back.
-/
namespace OmapBootUtils.SerialPort

open ScriptedRun LinkCalls ReleasedRuns

def serialRet (ok : Bool) : ℤ := if ok then serialOk else serialFailed

/-- The results of s_open, s_configure and s_close. -/
structure PortEnv where
  sOpen : Bool
  sConfigure : Bool
  sClose : Bool

/-- What read gives s_read: an error, or the bytes that have arrived. -/
abbrev SerialRead := Option (List UInt8)

/-- s_read of `size` bytes; the value is what it left in the buffer. -/
def sRead (size : ℕ) (read : SerialRead) : Link SerialRead := do
  let got := read.map (List.take size)
  Run.emit (.sRead size (got.getD []))
  return got

/-- The return value of s_read. -/
def readRet : SerialRead → ℤ
  | none => serialFailed
  | some got => got.length

/-- s_close on an error path, where its result is not looked at. -/
def closeAndReturn (port : PortEnv) (ret : ℤ) : Link ℤ := do
  Run.emit (.sClose (serialRet port.sClose))
  return ret

/-- The end of each main: the status is that of s_close. -/
def closePort (port : PortEnv) : Link ℤ := closeAndReturn port (serialRet port.sClose)

/-- The beginning of each main. -/
def withPort (port : PortEnv) (body : Link ℤ) : Link ℤ := do
  Run.emit (.sOpen (serialRet port.sOpen))
  if port.sOpen then do
    Run.emit (.sConfigure (serialRet port.sConfigure))
    if port.sConfigure then body else closeAndReturn port serialFailed
  else return serialFailed

/-! ### Handing the port back -/

/-- s_configure changed the terminal settings. -/
def Configured (c : LinkCall) : Prop := c = .sConfigure serialOk

def Closed (c : LinkCall) : Prop := ∃ ret, c = .sClose ret

/-- Every s_configure that succeeded is followed by s_close before the run ends. -/
abbrev HandsPortBack (x : Link ℤ) : Prop := HandsBack Configured Closed x

/-- The calls that open, configure or close the port. -/
def PortControl : LinkCall → Prop
  | .sOpen _ => True
  | .sConfigure _ => True
  | .sClose _ => True
  | _ => False

theorem Configured.portControl {c : LinkCall} (h : Configured c) : PortControl c := by
  rw [h]
  trivial

theorem Closed.portControl {c : LinkCall} (h : Closed c) : PortControl c := by
  obtain ⟨ret, rfl⟩ := h
  trivial

theorem PortControl.controls {c : LinkCall} (h : PortControl c) : c.Controls := by
  cases c with
  | sOpen ret => trivial
  | sConfigure ret => trivial
  | sClose ret => trivial
  | _ => exact absurd h not_false

theorem sRead_eq (size : ℕ) (read : SerialRead) :
    sRead size read = Run.after [.sRead size ((read.map (List.take size)).getD [])]
      (pure (read.map (List.take size))) := rfl

/-- The calls other than s_read. -/
def OtherThanRead : LinkCall → Prop
  | .sRead _ _ => False
  | _ => True

theorem PortControl.otherThanRead {c : LinkCall} (h : PortControl c) : OtherThanRead c := by
  cases c with
  | sRead size data => exact h
  | _ => trivial

/-- A part of a main that only reads, and stays clear of undefined behaviour. -/
abbrev OnlyReads {α : Type} (x : Link α) : Prop := Steady OtherThanRead x

theorem sRead_onlyReads (size : ℕ) (read : SerialRead) : OnlyReads (sRead size read) := by
  rw [sRead_eq]
  exact Steady.after _ _ _ (by simp [OtherThanRead]) (Steady.pure _ _)

theorem closeAndReturn_eq (port : PortEnv) (ret : ℤ) :
    closeAndReturn port ret = Run.after [.sClose (serialRet port.sClose)] (pure ret) := rfl

theorem closeAndReturn_avoids (port : PortEnv) (ret : ℤ) :
    Avoids Configured (closeAndReturn port ret) := by
  rw [closeAndReturn_eq]
  exact Avoids.after _ _ _ (by simp [Configured]) (Avoids.pure _ _)

theorem closeAndReturn_releases (port : PortEnv) (ret : ℤ) :
    Releases Closed (closeAndReturn port ret) := by
  rw [closeAndReturn_eq]
  exact Releases.of_mem _ _ _ _ (List.mem_singleton_self _) ⟨_, rfl⟩

theorem closePort_avoids (port : PortEnv) : Avoids Configured (closePort port) :=
  closeAndReturn_avoids port _

theorem closePort_releases (port : PortEnv) : Releases Closed (closePort port) :=
  closeAndReturn_releases port _

/-- A part of a main that leaves the port alone and stays clear of undefined
behaviour. -/
abbrev LeavesPort {α : Type} (x : Link α) : Prop := Steady PortControl x

theorem avoids_configured {α : Type} {x : Link α} (hx : Avoids PortControl x) :
    Avoids Configured x :=
  hx.mono _ _ fun _ hc => hc.portControl

theorem avoids_closed {α : Type} {x : Link α} (hx : Avoids PortControl x) : Avoids Closed x :=
  hx.mono _ _ fun _ hc => hc.portControl

/-- After such a part, closing the port is up to what follows. -/
theorem closes_bind_iff {α β : Type} (x : Link α) (f : α → Link β) (hx : LeavesPort x) :
    Releases Closed (x >>= f) ↔ ∀ a, x.status = .done a → Releases Closed (f a) :=
  Steady.releases_bind_iff _ _ _ (hx.mono _ _ fun _ hc => hc.portControl)

section WithPort
variable (port : PortEnv) (body : Link ℤ)

theorem withPort_configured (hopen : port.sOpen = true) (hconf : port.sConfigure = true) :
    withPort port body = Run.after [.sOpen serialOk, .sConfigure serialOk] body := by
  simp [withPort, hopen, hconf, serialRet]

/-- A main hands the port back exactly if what follows s_configure closes it. -/
theorem withPort_handsBack_iff (hbody : Avoids Configured body) :
    HandsPortBack (withPort port body) ↔
      (port.sOpen = true → port.sConfigure = true → Releases Closed body) := by
  cases hopen : port.sOpen with
  | false =>
    have hrun : withPort port body = Run.after [.sOpen serialFailed] (pure serialFailed) := by
      simp [withPort, hopen, serialRet]
    simp only [reduceCtorEq, false_implies, iff_true, hrun]
    exact HandsBack.of_avoids _ _ _ (Avoids.after _ _ _ (by simp [Configured]) (Avoids.pure _ _))
  | true =>
    cases hconf : port.sConfigure with
    | false =>
      have hrun : withPort port body = Run.after [.sOpen serialOk, .sConfigure serialFailed]
          (closeAndReturn port serialFailed) := by
        simp [withPort, hopen, hconf, serialRet]
      simp only [reduceCtorEq, false_implies, implies_true, iff_true, hrun]
      refine HandsBack.of_avoids _ _ _ (Avoids.after _ _ _ ?_ (closeAndReturn_avoids port _))
      simp [Configured, serialFailed, serialOk]
    | true =>
      rw [withPort_configured port body hopen hconf]
      have h := handsBack_iff Configured Closed [.sOpen serialOk] (.sConfigure serialOk) body
        (by simp [Configured]) rfl hbody
      simpa using h

end WithPort

end OmapBootUtils.SerialPort
