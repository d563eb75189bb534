import OmapBootUtils.KermitReads
import OmapBootUtils.PeripheralSerial
import OmapBootUtils.SerialApps

/-!
Whether the serial tools hand the port back. ucmd and sysrq call s_close in every
run that configured the port. pserial leaves without it when the download command
is not accepted, and ukermit does not get to it when an f_read fails, where it
runs out of its buffer; a run in undefined behaviour counts as ended.
-/
namespace OmapBootUtils.PortHandBack

open ScriptedRun ByteMemory LinkCalls ReleasedRuns SerialPort SerialApps
open KermitPacket KermitTransfer KermitRounds KermitReads

/-! ### pserial -/

section Pserial
open PeripheralSerial
variable (file : List UInt8) (env : PserialEnv)

theorem awaitAsicId_leavesPort : LeavesPort (awaitAsicId env.first env.reads) :=
  (awaitAsicId_onlyReads env.first env.reads).mono _ _ fun _ hc => hc.otherThanRead

theorem sendCommandAndFile_avoids : Avoids Configured (sendCommandAndFile file env) := by
  cases hword : wordTaken env.commandWrite with
  | false =>
    rw [sendCommandAndFile_refused file env hword]
    exact Avoids.after _ _ _ (by simp [Configured]) (Avoids.pure _ _)
  | true =>
    rw [sendCommandAndFile_taken file env hword]
    apply Avoids.after _ _ _ (by simp [Configured])
    exact Avoids.bind _ _ _ (avoids_configured (sendFile_leavesPort file env.file).avoids)
      fun _ => closePort_avoids env.port

/-- After the ASIC ID, s_close is reached exactly if the command is accepted. -/
theorem sendCommandAndFile_releases_iff :
    Releases Closed (sendCommandAndFile file env) ↔ wordTaken env.commandWrite = true := by
  cases hword : wordTaken env.commandWrite with
  | false =>
    rw [sendCommandAndFile_refused file env hword]
    simp only [reduceCtorEq, iff_false]
    apply not_releases _ _ (Avoids.after _ _ _ (by simp [Closed]) (Avoids.pure _ _))
    simp
  | true =>
    rw [sendCommandAndFile_taken file env hword, releases_after_iff _ _ _ (by simp [Closed]),
      closes_bind_iff _ _ (sendFile_leavesPort file env.file)]
    simp only [iff_true]
    exact fun _ _ => closePort_releases env.port

theorem pserialBody_avoids : Avoids Configured (pserialBody file env) := by
  apply Avoids.bind _ _ _ (avoids_configured (awaitAsicId_leavesPort env).avoids)
  intro exit
  cases exit with
  | some ret => exact closeAndReturn_avoids env.port ret
  | none => exact sendCommandAndFile_avoids file env

theorem pserial_handsBack_iff :
    HandsPortBack (pserialMain file env) ↔
      ¬ (AsicPhase env ∧ wordTaken env.commandWrite = false) := by
  rw [pserialMain, withPort_handsBack_iff _ _ (pserialBody_avoids file env), pserialBody,
    closes_bind_iff _ _ (awaitAsicId_leavesPort env)]
  constructor
  · rintro h ⟨⟨hopen, hconf, hid⟩, hrefused⟩
    have hrel := h hopen hconf none ((awaitAsicId_status _ _).mpr hid)
    rw [sendCommandAndFile_releases_iff, hrefused] at hrel
    cases hrel
  · intro h hopen hconf exit hexit
    cases exit with
    | some ret => exact closeAndReturn_releases env.port ret
    | none =>
      apply (sendCommandAndFile_releases_iff file env).mpr
      by_contra hrefused
      exact h ⟨⟨hopen, hconf, (awaitAsicId_status _ _).mp hexit⟩, by simpa using hrefused⟩

end Pserial

/-! ### ukermit -/

section Ukermit
variable (signedChar : Bool)

theorem kSendData_avoids (file : List UInt8) (env : KermitEnv) :
    Avoids PortControl (kSendData signedChar file env) := by
  cases hsize : env.fSize with
  | none =>
    simp only [kSendData, Build.kSendData, hsize]
    exact Avoids.bind _ _ _ (Avoids.emit _ _ (by simp [PortControl])) fun _ => Avoids.pure _ _
  | some size =>
    by_cases hopen : env.fOpen = fileOk
    · have hmoves := transferLoop_onlyMoves signedChar env.reads size (sequenceAt 0) file
        env.attempts
      rw [kSendData_opened signedChar file env size hsize hopen]
      apply Avoids.after _ _ _ (by simp [PortControl])
      apply Avoids.bind _ _ _ (hmoves.mono _ _ fun _ hc => hc.controls)
      intro exit
      cases exit with
      | some ret => exact Avoids.pure _ _
      | none => exact Avoids.after _ _ _ (by simp [PortControl]) (Avoids.pure _ _)
    · rw [kSendData_not_open signedChar file env size hsize hopen]
      exact Avoids.after _ _ _ (by simp [PortControl]) (Avoids.pure _ _)

/-- Whatever k_send_data returned, the port is closed next. -/
theorem afterSend_avoids (port : PortEnv) (ret : ℤ) :
    Avoids Configured (if ret ≠ 0 then closeAndReturn port ret else closePort port) := by
  split
  · exact closeAndReturn_avoids port ret
  · exact closePort_avoids port

theorem afterSend_releases (port : PortEnv) (ret : ℤ) :
    Releases Closed (if ret ≠ 0 then closeAndReturn port ret else closePort port) := by
  split
  · exact closeAndReturn_releases port ret
  · exact closePort_releases port

theorem ukermit_handsBack_iff (file : List UInt8) (env : UkermitEnv) :
    HandsPortBack (ukermitMain signedChar file env) ↔
      ¬ (env.port.sOpen = true ∧ env.port.sConfigure = true ∧
        CrashesOnRead signedChar file env.send) := by
  have hsend := kSendData_avoids signedChar file env.send
  have hbody : Avoids Configured (ukermitBody signedChar file env) :=
    Avoids.bind _ _ _ (Avoids.emit _ _ (by simp [Configured])) fun _ =>
      Avoids.bind _ _ _ (avoids_configured hsend) (afterSend_avoids env.port)
  rw [ukermitMain, withPort_handsBack_iff _ _ hbody, ukermitBody, Run.emit_bind,
    releases_after_iff _ _ _ (by simp [Closed]),
    releases_bind_iff _ _ _ (avoids_closed hsend), Ne, kSendData_undefined_iff]
  constructor
  · rintro h ⟨hopen, hconf, hcrash⟩
    exact (h hopen hconf).1 hcrash
  · intro h hopen hconf
    exact ⟨fun hcrash => h ⟨hopen, hconf, hcrash⟩, fun ret _ => afterSend_releases env.port ret⟩

end Ukermit

/-! ### ucmd and sysrq -/

theorem sGetc_eq (read : SerialRead) :
    ∃ ret, sGetc read =
      Run.after [.sRead 1 ((read.map (List.take 1)).getD [])] (pure ret) := ⟨_, rfl⟩

theorem getResponse_leavesPort (expected : List UInt8) (reads : List SerialRead) (matchIdx : ℕ) :
    LeavesPort (getResponse expected matchIdx reads) := by
  induction reads generalizing matchIdx with
  | nil =>
    rw [getResponse]
    split
    · exact Steady.block _
    · exact Steady.pure _ _
  | cons read reads ih =>
    obtain ⟨ret, hret⟩ := sGetc_eq read
    rw [getResponse, hret, Run.after_bind, Run.pure_bind]
    split
    · apply Steady.after _ _ _ (by simp [PortControl])
      split
      · exact Steady.pure _ _
      · exact ih _
    · exact Steady.pure _ _

theorem sendCmd_leavesPort (cmd : List UInt8) (env : UcmdEnv) : LeavesPort (sendCmd cmd env) := by
  unfold sendCmd
  split
  · exact Steady.bind _ _ _ (Steady.emit _ _ (by simp [PortControl])) fun _ => Steady.pure _ _
  · exact Steady.pure _ _

theorem sendSysrq_leavesPort (sysrqKey : UInt8) (env : SysrqEnv) :
    LeavesPort (sendSysrq sysrqKey env) := by
  unfold sendSysrq
  apply Steady.bind _ _ _ (Steady.emit _ _ (by simp [PortControl]))
  intro _
  split
  · exact Steady.pure _ _
  · exact Steady.bind _ _ _ (Steady.emit _ _ (by simp [PortControl])) fun _ => Steady.pure _ _

theorem ucmdBody_avoids (command expect : List UInt8) (env : UcmdEnv) :
    Avoids Configured (ucmdBody command expect env) := by
  have hsend := avoids_configured (sendCmd_leavesPort command env).avoids
  have hresponse := avoids_configured (getResponse_leavesPort expect env.chars 0).avoids
  apply Avoids.bind _ _ _ (Avoids.emit _ _ (by simp [Configured]))
  intro _
  split
  · exact closeAndReturn_avoids env.port _
  · apply Avoids.bind _ _ _ hsend
    intro ret
    split
    · exact closeAndReturn_avoids env.port _
    · apply Avoids.bind _ _ _ hresponse
      intro ret
      split
      · exact closeAndReturn_avoids env.port _
      · exact closePort_avoids env.port

theorem ucmdBody_releases (command expect : List UInt8) (env : UcmdEnv) :
    Releases Closed (ucmdBody command expect env) := by
  rw [ucmdBody, Run.emit_bind, releases_after_iff _ _ _ (by simp [Closed])]
  split
  · exact closeAndReturn_releases env.port _
  · rw [closes_bind_iff _ _ (sendCmd_leavesPort command env)]
    intro ret _
    split
    · exact closeAndReturn_releases env.port _
    · rw [closes_bind_iff _ _ (getResponse_leavesPort expect env.chars 0)]
      intro ret _
      split
      · exact closeAndReturn_releases env.port _
      · exact closePort_releases env.port

theorem ucmd_handsBack (command expect : List UInt8) (env : UcmdEnv) :
    HandsPortBack (ucmdMain command expect env) :=
  (withPort_handsBack_iff _ _ (ucmdBody_avoids command expect env)).mpr fun _ _ =>
    ucmdBody_releases command expect env

theorem sysrq_handsBack (sysrqKey : UInt8) (env : SysrqEnv) :
    HandsPortBack (sysrqMain sysrqKey env) := by
  have hsend := sendSysrq_leavesPort sysrqKey env
  have hbody : Avoids Configured (sysrqBody sysrqKey env) :=
    Avoids.bind _ _ _ (avoids_configured hsend.avoids) fun _ => closePort_avoids env.port
  apply (withPort_handsBack_iff _ _ hbody).mpr
  intro _ _
  rw [sysrqBody, closes_bind_iff _ _ hsend]
  exact fun _ _ => closePort_releases env.port

/-! ### The four tools -/

/-- pserial hands the port back unless the download command is refused after the ASIC
ID, ukermit unless it comes to an f_read that fails and the calloc after it does not,
ucmd and sysrq in every run. -/
theorem port_handed_back_iff (file : List UInt8) (pserial : PeripheralSerial.PserialEnv)
    (signedChar : Bool) (ukermit : UkermitEnv) (command expect : List UInt8) (ucmd : UcmdEnv)
    (sysrqKey : UInt8) (sysrq : SysrqEnv) :
    (HandsPortBack (PeripheralSerial.pserialMain file pserial) ↔
      ¬ (PeripheralSerial.AsicPhase pserial ∧ wordTaken pserial.commandWrite = false)) ∧
    (HandsPortBack (ukermitMain signedChar file ukermit) ↔
      ¬ (ukermit.port.sOpen = true ∧ ukermit.port.sConfigure = true ∧
        CrashesOnRead signedChar file ukermit.send)) ∧
    HandsPortBack (ucmdMain command expect ucmd) ∧
    HandsPortBack (sysrqMain sysrqKey sysrq) :=
  ⟨pserial_handsBack_iff file pserial, ukermit_handsBack_iff signedChar file ukermit,
    ucmd_handsBack command expect ucmd, sysrq_handsBack sysrqKey sysrq⟩

/-- The port is configured and the ASIC ID read; s_write of the download command fails. -/
def refusedEnv : PeripheralSerial.PserialEnv where
  port := ⟨true, true, true⟩
  first := 0
  reads := [some [0x04], some (List.replicate 7 0), some (List.replicate 50 0)]
  commandWrite := none
  file := ⟨some 1, true, some 4, [], true⟩

theorem port_kept_by_pserial : ¬ HandsPortBack (PeripheralSerial.pserialMain [0] refusedEnv) := by
  rw [pserial_handsBack_iff, not_not]
  exact ⟨by unfold PeripheralSerial.AsicPhase; decide, rfl⟩

end OmapBootUtils.PortHandBack
