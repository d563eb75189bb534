import OmapBootUtils.DownloadReleases
import OmapBootUtils.InstrumentedRun

/-!
pusb behind its options. main asks for the size of the file, waits until the device turns
up, configures it and calls send_file. The device is opened in main and closed in
send_file, and only there.
-/
namespace OmapBootUtils.UsbSession

open ScriptedRun LinkCalls ReleasedRuns InstrumentedRun PeripheralUsb DownloadReleases

inductive UsbCall where
  | openDevice (found : Bool)
  | setConfiguration (ret : ℤ)
  | link (c : LinkCall)
  deriving DecidableEq, Repr

/-- The loop that looks for the device. -/
def awaitDevice : List Bool → Run UsbCall Unit
  | [] => Run.block
  | found :: opens => do
      Run.emit (.openDevice found)
      if found then return () else awaitDevice opens

def configureDevice (ret : ℤ) : Run UsbCall ℤ := do
  Run.emit (.setConfiguration ret)
  if ret ≠ 0 then return ret else return 0

/-- The results of the calls main makes; send_file calls f_size once more. -/
structure MainEnv where
  filename : Bool
  fSize : Option ℕ
  opens : List Bool
  setConfiguration : ℤ
  sendFile : PusbEnv

/-- `int filesize = f_size(filename)`, which is not to be -1. -/
def MainEnv.sized (env : MainEnv) : Prop :=
  env.filename = true ∧ (fSizeRet env.fSize).bmod (2 ^ 32) ≠ -1

instance (env : MainEnv) : Decidable env.sized := inferInstanceAs (Decidable (_ ∧ _))

def pusbMain (asicidSize : ℕ) (file : List UInt8) (env : MainEnv) : Run UsbCall ℤ := do
  if env.filename then Run.emit (.link (.fSize (fSizeRet env.fSize)))
  if ¬ env.sized then return -2 else
  awaitDevice env.opens
  let c ← configureDevice env.setConfiguration
  if c ≠ 0 then return c else
  embed .link (sendFile asicidSize file env.sendFile)

/-! ### The device -/

def DeviceOpened (c : UsbCall) : Prop := c = .openDevice true

def DeviceClosed (c : UsbCall) : Prop := c = .link .usbClose

/-- Once the device turns up it has been looked for in vain before. -/
theorem awaitDevice_found (opens : List Bool) (h : true ∈ opens) :
    ∃ k, awaitDevice opens =
      Run.after (List.replicate k (.openDevice false) ++ [.openDevice true]) (pure ()) := by
  induction opens with
  | nil => cases h
  | cons found opens ih =>
    cases found with
    | true => exact ⟨0, rfl⟩
    | false =>
      obtain ⟨k, hk⟩ := ih (by simpa using h)
      refine ⟨k + 1, ?_⟩
      rw [awaitDevice, hk]
      rfl

/-- Until then main does not go on. -/
theorem awaitDevice_waits (opens : List Bool) (h : true ∉ opens) :
    (awaitDevice opens).status = .waiting := by
  induction opens with
  | nil => rfl
  | cons found opens ih =>
    simp only [List.mem_cons, not_or] at h
    have hfound : found = false := by simpa using h.1
    rw [hfound, awaitDevice, Run.emit_bind]
    exact ih h.2

theorem releases_embed_iff (x : Link ℤ) :
    Releases DeviceClosed (embed UsbCall.link x) ↔ Releases HandleClosed x := by
  simp [Releases, DeviceClosed, HandleClosed]

section Session
variable (asicidSize : ℕ) (file : List UInt8) (env : MainEnv)

/-- send_file comes to its end with the interface claimed. -/
def ClosesUp : Prop :=
  env.sendFile.filesize ≤ maxSize ∧ env.sendFile.fOpen = true ∧ env.sendFile.claimInterface = 0

/-- main from the device on. -/
def configured : Run UsbCall ℤ :=
  Run.after [.setConfiguration env.setConfiguration]
    (if env.setConfiguration ≠ 0 then pure env.setConfiguration
    else embed .link (sendFile asicidSize file env.sendFile))

theorem configured_avoids : Avoids DeviceOpened (configured asicidSize file env) := by
  unfold configured
  apply Avoids.after _ _ _ (by simp [DeviceOpened])
  split
  · exact Avoids.pure _ _
  · simp [Avoids, DeviceOpened]

theorem configured_releases_iff :
    Releases DeviceClosed (configured asicidSize file env) ↔
      env.setConfiguration = 0 ∧ ClosesUp env := by
  rw [configured, releases_after_iff _ _ _ (by simp [DeviceClosed])]
  split
  case isTrue hfailed =>
    exact iff_of_false (not_releases _ _ (Avoids.pure _ _) (by simp)) fun h => hfailed h.1
  case isFalse hconfigured =>
    rw [releases_embed_iff, usbSend_closesHandle_iff]
    exact (and_iff_right (not_not.mp hconfigured)).symm

theorem pusbMain_sized (h : env.sized) :
    pusbMain asicidSize file env = Run.after [.link (.fSize (fSizeRet env.fSize))]
      (awaitDevice env.opens >>= fun _ => configured asicidSize file env) := by
  have hname := h.1
  by_cases hfailed : env.setConfiguration = 0 <;>
    simp [pusbMain, hname, h, configureDevice, configured, hfailed]

theorem pusbMain_unsized (h : ¬ env.sized) :
    Avoids DeviceOpened (pusbMain asicidSize file env) ∧
      (pusbMain asicidSize file env).status = .done (-2) := by
  cases hname : env.filename <;> simp [pusbMain, h, hname, Avoids, DeviceOpened]

/-- Whether the device is handed back is decided once it is found. -/
theorem handsBack_found_iff (hsized : env.sized) (hfound : true ∈ env.opens) :
    HandsBack DeviceOpened DeviceClosed (pusbMain asicidSize file env) ↔
      env.setConfiguration = 0 ∧ ClosesUp env := by
  obtain ⟨k, hk⟩ := awaitDevice_found env.opens hfound
  rw [pusbMain_sized asicidSize file env hsized, hk, Run.after_bind, Run.pure_bind,
    Run.after_after, ← List.append_assoc, handsBack_iff DeviceOpened DeviceClosed _ _ _ _ rfl
      (configured_avoids asicidSize file env)]
  · exact configured_releases_iff asicidSize file env
  · simp [DeviceOpened]

theorem status_not_found (hsized : env.sized) (hfound : true ∉ env.opens) :
    (pusbMain asicidSize file env).status = .waiting := by
  have hwaiting := awaitDevice_waits env.opens hfound
  rw [pusbMain_sized asicidSize file env hsized, Run.after_status]
  simp [bind, hwaiting]

/-- send_file returns 0 only from its end. -/
theorem closesUp_of_done (h : (sendFile asicidSize file env.sendFile).status = .done 0) :
    ClosesUp env := by
  by_cases hsize : env.sendFile.filesize ≤ maxSize
  · cases hopen : env.sendFile.fOpen with
    | false => simp [sendFile, Nat.not_lt.mpr hsize, hopen] at h
    | true =>
      rw [sendFile_opened asicidSize file env.sendFile hsize hopen, Run.after_status] at h
      split at h
      case isTrue hclaim => exact absurd (Status.done.inj h) hclaim
      case isFalse hclaim =>
        exact ⟨hsize, hopen, not_not.mp hclaim⟩
  · simp [sendFile, Nat.lt_of_not_le hsize] at h

/-- pusb hands the device back unless, once found, it cannot be configured, the file is too
large or cannot be opened, or the interface cannot be claimed; it has handed it back whenever
it returns 0. -/
theorem device_handed_back_iff :
    (HandsBack DeviceOpened DeviceClosed (pusbMain asicidSize file env) ↔
      (env.sized → true ∈ env.opens →
        env.setConfiguration = 0 ∧ ClosesUp env)) ∧
    ((pusbMain asicidSize file env).status = .done 0 →
      .openDevice true ∈ (pusbMain asicidSize file env).log ∧
        HandsBack DeviceOpened DeviceClosed (pusbMain asicidSize file env)) := by
  by_cases hsized : env.sized
  · by_cases hfound : true ∈ env.opens
    · rw [handsBack_found_iff asicidSize file env hsized hfound]
      refine ⟨by simp [hsized, hfound], ?_⟩
      intro hdone
      obtain ⟨k, hk⟩ := awaitDevice_found env.opens hfound
      rw [pusbMain_sized asicidSize file env hsized, hk, Run.after_bind, Run.pure_bind,
        Run.after_after] at hdone ⊢
      refine ⟨by simp, ?_⟩
      rw [Run.after_status, configured, Run.after_status] at hdone
      split at hdone
      case isTrue hfailed => exact absurd (Status.done.inj hdone) hfailed
      case isFalse hconfigured =>
        exact ⟨not_not.mp hconfigured, closesUp_of_done asicidSize file env hdone⟩
    · have hwaiting := status_not_found asicidSize file env hsized hfound
      refine ⟨iff_of_true ?_ fun _ h => absurd h hfound, fun h => by rw [hwaiting] at h; cases h⟩
      intro before c later _ _ hend
      exact absurd hwaiting hend
  · obtain ⟨havoids, hstatus⟩ := pusbMain_unsized asicidSize file env hsized
    refine ⟨iff_of_true (HandsBack.of_avoids _ _ _ havoids) fun h => absurd h hsized, ?_⟩
    intro h
    rw [hstatus] at h
    exact absurd (Status.done.inj h) (by omega)

end Session

/-- The device turns up at the second look and cannot be configured. -/
def unconfiguredEnv : MainEnv where
  filename := true
  fSize := some 1
  opens := [false, true]
  setConfiguration := -1
  sendFile := unclaimedEnv

theorem device_kept_unconfigured :
    ¬ HandsBack DeviceOpened DeviceClosed (pusbMain 69 [0] unconfiguredEnv) := by
  rw [(device_handed_back_iff 69 [0] unconfiguredEnv).1]
  intro h
  obtain ⟨hconfigured, -⟩ := h ⟨rfl, by decide⟩ (by decide)
  exact absurd hconfigured (by decide)

end OmapBootUtils.UsbSession
