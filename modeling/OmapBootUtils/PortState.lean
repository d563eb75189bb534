import OmapBootUtils.PosixSerial

/-!
The state of the serial library over a sequence of calls. A port is open from an s_open
that returns SERIAL_OK until its descriptor is closed, and s_close puts back the terminal
settings that the last s_configure found.
-/
namespace OmapBootUtils.PortState

open CallMachine PosixSerial
open LinkCalls (serialOk serialFailed)

/-! ### Open ports -/

/-- The library, and the descriptors of open ports: those of s_open calls that returned
SERIAL_OK and were not closed since. -/
structure Session where
  lib : Lib
  held : List ℤ

/-- The library before its first call. -/
def initial (tio : Termios) : Session := ⟨⟨0, zeroTermios, zeroTermios, tio⟩, []⟩

def gained (o : Outcome) : LibCall → List ℤ
  | .sOpen _ => if o.ret = serialOk then [o.lib.fd] else []
  | _ => []

def closedBy (log : List SysCall) : List ℤ :=
  log.filterMap fun
    | .close fd _ => some fd
    | _ => none

def Session.after (s : Session) (c : LibCall) : Session :=
  let o := perform s.lib c
  ⟨o.lib, gained o c ++ s.held.filter (· ∉ closedBy o.log)⟩

def portMachine : Machine Session LibCall SysCall where
  next := Session.after
  events s c := (perform s.lib c).log

/-- The library regards the port as open exactly when it is. While no port is open,
s_open is attempted and all other calls are refused. -/
structure PortRegarded (s : Session) : Prop where
  open_iff : s.lib.fd ≠ 0 ↔ s.held ≠ []
  attempted : s.held = [] → ∀ r, (sOpen s.lib r).log ≠ []
  refused : s.held = [] → ∀ c, (∀ r, c ≠ .sOpen r) → perform s.lib c = refused s.lib

/-- The open port is the one behind the descriptor of the library. -/
def HoldsFd (s : Session) : Prop := s.held = if s.lib.fd = 0 then [] else [s.lib.fd]

theorem sOpen_attempted (lib : Lib) (h : lib.fd = 0) (r : OpenResults) :
    (sOpen lib r).log ≠ [] := by
  cases sOpen_end lib r with
  | alreadyOpen hfd _ => exact absurd h hfd
  | used _ hend => simp [hend]
  | failed _ _ hend => simp [hend]
  | opened _ _ hend => simp [hend]

theorem closed_refused (lib : Lib) (h : lib.fd = 0) (c : LibCall) (hc : ∀ r, c ≠ .sOpen r) :
    perform lib c = refused lib := by
  have hfailed : (serialFailed : ℤ) < 0 := by decide
  cases c with
  | sOpen r => exact absurd rfl (hc r)
  | sConfigure => simp only [perform, sConfigure, h, if_true]
  | sFlush => simp only [perform, sFlush, h, if_true]
  | sClose => simp only [perform, sClose, h, if_true]
  | sRead => simp only [perform, sRead, h, if_true]
  | sWrite => simp only [perform, sWrite, h, if_true]
  | sReadRemaining => simp only [perform, sReadRemaining, h, if_true]
  | sGetc => simp only [perform, sGetc, sRead, h, if_true, refused, hfailed]
  | sPutc => simp only [perform, sPutc, sWrite, h, if_true, refused, hfailed]
  | sBreak => simp only [perform, sBreak, h, if_true]

theorem HoldsFd.portRegarded {s : Session} (h : HoldsFd s) : PortRegarded s := by
  have hopen : s.lib.fd ≠ 0 ↔ s.held ≠ [] := by
    rw [h]
    split <;> simp_all
  have hclosed (hheld : s.held = []) : s.lib.fd = 0 := by
    by_contra hfd
    exact hopen.mp hfd hheld
  exact ⟨hopen, fun hheld => sOpen_attempted s.lib (hclosed hheld),
    fun hheld => closed_refused s.lib (hclosed hheld)⟩

/-- What a call does to the descriptor: it keeps it, or it is an s_open that calls open, or
an s_close that calls close. -/
inductive PortStep (lib : Lib) (c : LibCall) : Prop
  | keeps (h : KeepsPort lib (perform lib c)) (hgained : gained (perform lib c) c = [])
  | opens (ret : ℤ) (hfd : lib.fd = 0) (hopen : .openPort ret ∈ (perform lib c).log)
      (hlog : ∀ other, .openPort other ∈ (perform lib c).log → other = ret)
      (hclosed : closedBy (perform lib c).log = [])
      (hgained : gained (perform lib c) c = if ret < 0 then [] else [ret])
      (hnext : (perform lib c).lib.fd = ret)
  | closes (hlog : ∀ ret, .openPort ret ∉ (perform lib c).log)
      (hclosed : closedBy (perform lib c).log = [lib.fd])
      (hgained : gained (perform lib c) c = []) (hnext : (perform lib c).lib.fd = 0)

theorem sOpen_portStep (lib : Lib) (r : OpenResults) : PortStep lib (.sOpen r) := by
  have hfailed : ¬serialFailed = serialOk := by decide
  cases sOpen_end lib r with
  | alreadyOpen _ hend =>
    apply PortStep.keeps
    · rw [perform, hend]
      exact refused_keeps lib
    · simp [perform, gained, hend, refused, hfailed]
  | used _ hend =>
    apply PortStep.keeps
    · constructor <;> simp [perform, hend]
    · simp [perform, gained, hend, hfailed]
  | failed hfd hret hend =>
    apply PortStep.opens r.openRet hfd <;>
      simp [perform, gained, closedBy, hend, hret, hfailed]
  | opened hfd hret hend =>
    apply PortStep.opens r.openRet hfd <;> simp [perform, gained, closedBy, hend, hret]

theorem sClose_portStep (lib : Lib) (r : CloseResults) : PortStep lib (.sClose r) := by
  cases sClose_end lib r with
  | notOpen _ hend =>
    apply PortStep.keeps
    · rw [perform, hend]
      exact refused_keeps lib
    · rfl
  | kept _ hend =>
    apply PortStep.keeps
    · constructor <;> simp [perform, hend]
    · rfl
  | closed _ hend => apply PortStep.closes <;> simp [perform, gained, closedBy, hend]

theorem portStep (lib : Lib) (c : LibCall) : PortStep lib c := by
  cases c with
  | sOpen r => exact sOpen_portStep lib r
  | sClose r => exact sClose_portStep lib r
  | sConfigure sBaudRate sParity sStopBits sDataBits r =>
    exact .keeps (sConfigure_keeps lib sBaudRate sParity sStopBits sDataBits r) rfl
  | sFlush tcflush => exact .keeps (sFlush_keeps lib tcflush) rfl
  | sRead size r => exact .keeps (sRead_keeps lib size r) rfl
  | sWrite data r => exact .keeps (sWrite_keeps lib data r) rfl
  | sReadRemaining => exact .keeps (sReadRemaining_keeps lib) rfl
  | sGetc r => exact .keeps (sGetc_keeps lib r) rfl
  | sPutc signedChar x r => exact .keeps (sPutc_keeps lib signedChar x r) rfl
  | sBreak r => exact .keeps (sBreak_keeps lib r) rfl

theorem KeepsPort.closedBy {lib : Lib} {o : Outcome} (h : KeepsPort lib o) :
    closedBy o.log = [] := by
  apply List.filterMap_eq_nil_iff.mpr
  intro call hcall
  cases call with
  | close fd ret => exact absurd hcall (h.notClosed fd ret)
  | _ => rfl

/-- open gave a descriptor that the library does not take for a closed port. -/
def Usable : SysCall → Prop
  | .openPort ret => 0 < ret
  | _ => True

theorem HoldsFd.step {s : Session} (h : HoldsFd s) (c : LibCall)
    (husable : ∀ call ∈ (perform s.lib c).log, Usable call) : HoldsFd (s.after c) := by
  unfold HoldsFd Session.after
  dsimp only
  cases portStep s.lib c with
  | keeps hkeeps hgained =>
    rw [hgained, KeepsPort.closedBy hkeeps, hkeeps.fd]
    simpa [HoldsFd] using h
  | opens ret hfd hopen hlog hclosed hgained hnext =>
    have hpos : 0 < ret := husable _ hopen
    have hheld : s.held = [] := by rw [h, if_pos hfd]
    rw [hgained, hnext, hheld, if_neg (not_lt.mpr hpos.le), if_neg hpos.ne']
    rfl
  | closes hlog hclosed hgained hnext =>
    rw [hgained, hclosed, hnext, h]
    split <;> simp

theorem PortRegarded.usable {s : Session} (h : HoldsFd s) (c : LibCall)
    (hnext : PortRegarded (s.after c)) : ∀ call ∈ (perform s.lib c).log, Usable call := by
  intro call hcall
  cases call with
  | openPort ret =>
    cases portStep s.lib c with
    | keeps hkeeps _ => exact absurd hcall (hkeeps.notOpened ret)
    | closes hlog _ _ _ => exact absurd hcall (hlog ret)
    | opens opened hfd _ hlog hclosed hgained hfdNext =>
      rw [hlog ret hcall]
      have hheld : (s.after c).held = if opened < 0 then [] else [opened] := by
        unfold Session.after
        dsimp only
        rw [hgained, h, if_pos hfd]
        simp
      have hlib : (s.after c).lib.fd = opened := hfdNext
      have hopen := hnext.open_iff
      rw [hheld, hlib] at hopen
      by_cases hneg : opened < 0
      · simp only [hneg, if_true, ne_eq, not_true_eq_false, iff_false, not_not] at hopen
        omega
      · simp only [hneg, if_false, ne_eq, reduceCtorEq, not_false_eq_true, iff_true] at hopen
        show 0 < opened
        omega
  | _ => trivial

/-- In every state of a run from the start, the library regards the port as open exactly
when it is, if and only if every open in the run returned a positive descriptor. -/
theorem port_regarded_iff (tio : Termios) (cs : List LibCall) :
    (∀ before, before <+: cs → PortRegarded (portMachine.run (initial tio) before)) ↔
      ∀ ret, .openPort ret ∈ portMachine.trace (initial tio) cs → 0 < ret := by
  have husable : (∀ call ∈ portMachine.trace (initial tio) cs, Usable call) ↔
      ∀ ret, .openPort ret ∈ portMachine.trace (initial tio) cs → 0 < ret := by
    constructor
    · intro h ret hret
      exact h _ hret
    · intro h call hcall
      cases call with
      | openPort ret => exact h ret hcall
      | _ => trivial
  rw [← husable]
  apply portMachine.holds_throughout_iff HoldsFd
  · intro s
    exact HoldsFd.portRegarded
  · intro s c h
    exact h.step c
  · intro s c h
    exact PortRegarded.usable h c
  · rfl

/-- open fails, and s_open is tried again. -/
theorem failed_open_stays_open :
    let failing : OpenResults := ⟨1, 1, -1, zeroTermios⟩
    let s := portMachine.run (initial zeroTermios) [.sOpen failing]
    ¬PortRegarded s ∧ s.held = [] ∧
      ∀ retried, sOpen s.lib retried = ⟨serialFailed, [], s.lib⟩ := by
  refine ⟨?_, rfl, fun _ => rfl⟩
  intro h
  exact h.attempted rfl ⟨1, 1, 3, zeroTermios⟩ rfl

/-! ### Restored settings -/

/-- The settings that a call saves for s_close: s_configure saves those it finds. -/
def saved (lib : Lib) : LibCall → Option Termios
  | .sConfigure _ _ _ _ r => if lib.fd ≠ 0 ∧ 0 ≤ r.getOld then some lib.tio else none
  | _ => none

/-- The settings that tcsetattr calls ask for. -/
def settingsIn (log : List SysCall) : List Termios :=
  log.filterMap fun
    | .tcsetattr _ tio _ => some tio
    | _ => none

theorem sConfigure_oldtio (lib : Lib) (sBaudRate : ℕ) (sParity sStopBits sDataBits : UInt8)
    (r : ConfigureResults) :
    (sConfigure lib sBaudRate sParity sStopBits sDataBits r).lib.oldtio =
      if lib.fd ≠ 0 ∧ 0 ≤ r.getOld then lib.tio else lib.oldtio := by
  by_cases hfd : lib.fd = 0
  · simp [sConfigure, refused, hfd]
  · by_cases hold : r.getOld < 0
    · simp [sConfigure, hfd, hold]
    · rw [if_pos ⟨hfd, not_lt.mp hold⟩]
      simp only [sConfigure, hfd, hold, if_false]
      split
      · rfl
      · split
        · rfl
        · split
          · rfl
          · split <;> simp

section Kept
variable (lib : Lib)

theorem sOpen_oldtio (r : OpenResults) : (sOpen lib r).lib.oldtio = lib.oldtio := by
  cases sOpen_end lib r with
  | alreadyOpen _ hend => rw [hend, refused]
  | used _ hend => rw [hend]
  | failed _ _ hend => rw [hend]
  | opened _ _ hend => rw [hend]

theorem sClose_oldtio (r : CloseResults) : (sClose lib r).lib.oldtio = lib.oldtio := by
  cases sClose_end lib r with
  | notOpen _ hend => rw [hend, refused]
  | kept _ hend => rw [hend]
  | closed _ hend => rw [hend]

theorem sRead_oldtio (size : ℕ) (r : ReadResults) :
    (sRead lib size r).lib.oldtio = lib.oldtio := by
  unfold sRead
  split
  · rfl
  · simp

theorem sFlush_lib (tcflush : ℤ) : (sFlush lib tcflush).lib = lib := by
  unfold sFlush
  split
  · rfl
  · split <;> rfl

theorem sWrite_lib (data : List UInt8) (r : WriteResults) : (sWrite lib data r).lib = lib := by
  unfold sWrite
  split
  · rfl
  · split
    · rfl
    · dsimp only
      split <;> rfl

theorem sReadRemaining_lib : (sReadRemaining lib).lib = lib := by
  unfold sReadRemaining
  split <;> rfl

theorem sGetc_lib (r : ReadResults) : (sGetc lib r).lib = (sRead lib 1 r).lib := by
  unfold sGetc
  dsimp only
  split <;> rfl

theorem sPutc_lib (signedChar : Bool) (x : UInt8) (r : WriteResults) :
    (sPutc signedChar lib x r).lib = (sWrite lib [x] r).lib := by
  unfold sPutc
  dsimp only
  split <;> rfl

theorem sBreak_lib (r : BreakResults) : (sBreak lib r).lib = lib := by
  unfold sBreak
  split
  · rfl
  · split
    · rfl
    · dsimp only
      split <;> rfl

theorem perform_oldtio (c : LibCall) :
    (perform lib c).lib.oldtio = (saved lib c).getD lib.oldtio := by
  cases c with
  | sOpen r => exact sOpen_oldtio lib r
  | sConfigure sBaudRate sParity sStopBits sDataBits r =>
    rw [perform, sConfigure_oldtio, saved]
    split <;> rfl
  | sFlush tcflush => exact congrArg Lib.oldtio (sFlush_lib lib tcflush)
  | sClose r => exact sClose_oldtio lib r
  | sRead size r => exact sRead_oldtio lib size r
  | sWrite data r => exact congrArg Lib.oldtio (sWrite_lib lib data r)
  | sReadRemaining => exact congrArg Lib.oldtio (sReadRemaining_lib lib)
  | sGetc r =>
    rw [perform, sGetc_lib]
    exact sRead_oldtio lib 1 r
  | sPutc signedChar x r =>
    rw [perform, sPutc_lib, sWrite_lib]
    rfl
  | sBreak r => exact congrArg Lib.oldtio (sBreak_lib lib r)

/-- What s_close puts back is what the last s_configure saved, or what the library has from
earlier use. -/
theorem oldtio_run (cs : List LibCall) :
    (libMachine.run lib cs).oldtio = (libMachine.lastWrite saved lib cs).getD lib.oldtio :=
  libMachine.read_run Lib.oldtio saved perform_oldtio lib cs

theorem sOpen_opened (r : OpenResults) (h : (sOpen lib r).ret = serialOk) :
    (sOpen lib r).lib = { lib with fd := r.openRet, tio := r.tio } := by
  have hfailed : serialFailed ≠ serialOk := by decide
  cases sOpen_end lib r with
  | alreadyOpen _ hend =>
    rw [hend] at h
    exact absurd h hfailed
  | used _ hend =>
    rw [hend] at h
    exact absurd h hfailed
  | failed _ _ hend =>
    rw [hend] at h
    exact absurd h hfailed
  | opened _ _ hend => rw [hend]

theorem sClose_settings (r : CloseResults) (h : (sClose lib r).ret = serialOk) :
    settingsIn (sClose lib r).log = [lib.oldtio] := by
  have hfailed : serialFailed ≠ serialOk := by decide
  cases sClose_end lib r with
  | notOpen _ hend =>
    rw [hend] at h
    exact absurd h hfailed
  | kept _ hend =>
    rw [hend] at h
    exact absurd h hfailed
  | closed _ hend =>
    rw [hend]
    rfl

end Kept

/-- An s_close that succeeds puts back the settings that the port had when s_open returned,
if and only if the last s_configure that saved any found the port with these settings, or
none did and they are what the library has from earlier use. -/
theorem close_restores_iff (lib : Lib) (r : OpenResults) (cs : List LibCall)
    (closing : CloseResults) (hopen : (sOpen lib r).ret = serialOk)
    (hclose : (sClose (libMachine.run (sOpen lib r).lib cs) closing).ret = serialOk) :
    settingsIn (sClose (libMachine.run (sOpen lib r).lib cs) closing).log =
        [(sOpen lib r).lib.tio] ↔
      match libMachine.lastWrite saved (sOpen lib r).lib cs with
      | some found => found = r.tio
      | none => lib.oldtio = r.tio := by
  rw [sClose_settings _ closing hclose, oldtio_run, sOpen_opened lib r hopen,
    List.cons.injEq]
  cases libMachine.lastWrite saved { lib with fd := r.openRet, tio := r.tio } cs with
  | some found => exact and_iff_left rfl
  | none => exact and_iff_left rfl

/-- The settings of a terminal that is left to its defaults. -/
def terminalSettings : Termios := ⟨0x500, 5, 0xBF, 0x8A3B, 0, Vector.replicate 32 0, 15, 15⟩

theorem close_restores_configured :
    let lib : Lib := ⟨0, zeroTermios, zeroTermios, zeroTermios⟩
    let opened := (sOpen lib ⟨1, 1, 3, terminalSettings⟩).lib
    let configured := libMachine.run opened [.sConfigure 115200 0 0 8 ⟨0, 0, 0, 0⟩]
    settingsIn (sClose configured ⟨0, 0, 0⟩).log = [opened.tio] :=
  (close_restores_iff ⟨0, zeroTermios, zeroTermios, zeroTermios⟩ ⟨1, 1, 3, terminalSettings⟩
    [.sConfigure 115200 0 0 8 ⟨0, 0, 0, 0⟩] ⟨0, 0, 0⟩ rfl rfl).mpr rfl

/-- Without an s_configure, s_close sets the zeros of the static variable. -/
theorem unconfigured_close_zeros :
    let lib : Lib := ⟨0, zeroTermios, zeroTermios, zeroTermios⟩
    let opened := sOpen lib ⟨1, 1, 3, terminalSettings⟩
    let closed := sClose (libMachine.run opened.lib []) ⟨0, 0, 0⟩
    opened.ret = serialOk ∧ closed.ret = serialOk ∧
      settingsIn closed.log = [zeroTermios] ∧ settingsIn closed.log ≠ [opened.lib.tio] := by
  have hsettings : zeroTermios ≠ terminalSettings := by
    intro h
    exact absurd (congrArg Termios.cIflag h) (by decide)
  refine ⟨rfl, rfl, rfl, ?_⟩
  intro h
  exact hsettings (List.cons.inj h).1

end OmapBootUtils.PortState
