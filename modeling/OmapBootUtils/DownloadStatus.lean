import OmapBootUtils.PeripheralSerial

/-!
What a zero status of pserial says. send_file returns 0 for every run that gets
to its loop and out of it, and main returns the status of s_close. The runs for
which 0 means a complete download are described by the results of their calls.
-/
namespace OmapBootUtils.DownloadStatus

open ScriptedRun ByteMemory LinkCalls SerialPort PeripheralSerial

/-- A size word was accepted in full and then that many bytes of the file. -/
def CompleteDownload (file : List UInt8) (log : List LinkCall) : Prop :=
  ∃ word, word.length = 4 ∧ .sWrite word 4 ∈ log ∧
    accepted log = word ++ file.take (leNat word) ∧ leNat word ≤ file.length

/-- send_file returns 0 only for a complete download. -/
def SendFileHonest (file : List UInt8) (env : SendFileEnv) : Prop :=
  (sendFile file env).status = .done 0 → CompleteDownload file (sendFile file env).log

/-- main ends with 0 after the ASIC ID phase only if send_file returned 0. -/
def MainHonest (file : List UInt8) (env : PserialEnv) : Prop :=
  AsicPhase env → (pserialMain file env).status = .done 0 →
    (sendFile file env.file).status = .done 0

theorem size_lt (env : SendFileEnv) : env.size.toNat < 256 ^ 4 := by
  have h : (fSizeRet env.fSize).bmod (2 ^ 32) < ((2 ^ 32 : ℕ) + 1) / 2 := Int.bmod_lt (by decide)
  unfold SendFileEnv.size
  omega

/-- The size word stands for the size. -/
theorem leNat_sizeWord (env : SendFileEnv) :
    leNat (leBytes 4 env.size.toNat) = env.size.toNat := by
  rw [leNat_leBytes, Nat.mod_eq_of_lt (size_lt env)]

section
variable (file : List UInt8)

/-- After a successful start, the download is complete if the loop is. -/
theorem completeDownload_iff (env : SendFileEnv) (h : StartsUp env) :
    CompleteDownload file (sendFile file env).log ↔
      accepted (sendLoop env.size.toNat 0 file env.passes).log = file.take env.size.toNat ∧
        env.size.toNat ≤ file.length := by
  rw [CompleteDownload, sendFile_accepted file env h]
  constructor
  · rintro ⟨word, hlen, _, heq, hsize⟩
    obtain ⟨hword, hdata⟩ := List.append_inj heq (by rw [leBytes_length, hlen])
    rw [← hword, leNat_sizeWord] at hdata hsize
    exact ⟨hdata, hsize⟩
  · rintro ⟨hdata, hsize⟩
    refine ⟨leBytes 4 env.size.toNat, leBytes_length 4 _, ?_, ?_, ?_⟩
    · rw [sendFile_started file env h]
      simp
    · rw [leNat_sizeWord, hdata]
    · rwa [leNat_sizeWord]

theorem sendFileHonest_iff (env : SendFileEnv) :
    SendFileHonest file env ↔ (StartsUp env → ReadsEnd env.size.toNat 0 file env.passes →
      BlocksTaken env.size.toNat 0 file env.passes) := by
  rw [SendFileHonest, sendFile_status_zero_iff]
  constructor
  · intro h hstart hend
    have hcomplete := (completeDownload_iff file env hstart).mp (h ⟨hstart, hend⟩)
    exact (sendLoop_complete_iff _ env.passes 0 file (Nat.zero_le _) hend).mp
      (by simpa using hcomplete)
  · rintro h ⟨hstart, hend⟩
    have hloop := (sendLoop_complete_iff _ env.passes 0 file (Nat.zero_le _) hend).mpr
      (h hstart hend)
    exact (completeDownload_iff file env hstart).mpr (by simpa using hloop)

theorem closePort_status (port : PortEnv) :
    (closePort port).status = .done 0 ↔ port.sClose = true := by
  cases hclose : port.sClose <;>
    simp [closePort, closeAndReturn_eq, serialRet, serialOk, serialFailed, hclose]

/-- main ends with 0 as soon as send_file returns and s_close succeeds. -/
theorem pserialMain_status_zero_iff (env : PserialEnv) (h : AsicPhase env) :
    (pserialMain file env).status = .done 0 ↔ wordTaken env.commandWrite = true ∧
      (∃ ret, (sendFile file env.file).status = .done ret) ∧ env.port.sClose = true := by
  rw [pserialMain_asicPhase file env h, Run.after_status]
  cases hword : wordTaken env.commandWrite with
  | false => simp [sendCommandAndFile_refused file env hword]
  | true =>
    rw [sendCommandAndFile_taken file env hword, Run.after_status, Run.bind_done_iff]
    simp only [closePort_status, true_and]
    exact ⟨fun ⟨ret, hret, hclose⟩ => ⟨⟨ret, hret⟩, hclose⟩,
      fun ⟨⟨ret, hret⟩, hclose⟩ => ⟨ret, hret, hclose⟩⟩

theorem mainHonest_iff (env : PserialEnv) :
    MainHonest file env ↔ (AsicPhase env → wordTaken env.commandWrite = true →
      StartsUp env.file ∨ env.port.sClose = false) := by
  rw [MainHonest]
  apply forall_congr'
  intro hphase
  rw [pserialMain_status_zero_iff file env hphase, sendFile_status_zero_iff]
  constructor
  · intro h hword
    by_cases hstart : StartsUp env.file
    · exact Or.inl hstart
    · obtain ⟨ret, _, hret⟩ := sendFile_not_started file env.file hstart
      right
      by_contra hclose
      exact hstart (h ⟨hword, ⟨ret, hret⟩, by simpa using hclose⟩).1
  · rintro h ⟨hword, ⟨ret, hret⟩, hclose⟩
    rcases h hword with hstart | hfail
    · refine ⟨hstart, ?_⟩
      rw [sendFile_started file env.file hstart, Run.after_status, Run.bind_done_iff] at hret
      obtain ⟨_, hdone, _⟩ := hret
      exact (sendLoop_status _ _ _ _).mp hdone
    · rw [hclose] at hfail
      cases hfail

/-- When a zero status of pserial can be believed. In send_file: it does not get to
its loop or out of it, or no f_read fails and every s_write takes its block. In
main: the size, the file and the size word cause no error, or s_close fails. -/
theorem status_zero_honest_iff (env : PserialEnv) :
    (SendFileHonest file env.file ↔
      (StartsUp env.file → ReadsEnd env.file.size.toNat 0 file env.file.passes →
        BlocksTaken env.file.size.toNat 0 file env.file.passes)) ∧
    (MainHonest file env ↔ (AsicPhase env → wordTaken env.commandWrite = true →
      StartsUp env.file ∨ env.port.sClose = false)) :=
  ⟨sendFileHonest_iff file env.file, mainHonest_iff file env⟩

end

/-- Two bytes to send of which s_write takes one. -/
def shortWriteEnv : SendFileEnv where
  fSize := some 2
  fOpen := true
  sizeWrite := some 4
  passes := [(some 2, some 1)]
  fClose := true

/-- An ASIC ID of an unknown device, then a file that cannot be opened. -/
def unopenedEnv : PserialEnv where
  port := ⟨true, true, true⟩
  first := 0
  reads := [some [0x04], some (List.replicate 7 0), some (List.replicate 50 0)]
  commandWrite := some 4
  file := { shortWriteEnv with fOpen := false }

/-- send_file returns 0 although the second byte of the file was not accepted, and main
ends with 0 although send_file could not open the file. -/
theorem status_zero_dishonest :
    ¬ SendFileHonest [0xAA, 0xBB] shortWriteEnv ∧ ¬ MainHonest [0xAA, 0xBB] unopenedEnv := by
  constructor
  · rw [sendFileHonest_iff]
    intro h
    have hstart : StartsUp shortWriteEnv := by unfold StartsUp; decide
    have hblocks := h hstart (by
      simp [ReadsEnd, curRead, toRead, shortWriteEnv, SendFileEnv.size, fSizeRet, totSize])
    simp [BlocksTaken, curRead, toRead, moved, shortWriteEnv, SendFileEnv.size, fSizeRet,
      totSize] at hblocks
  · rw [mainHonest_iff]
    intro h
    have hphase : AsicPhase unopenedEnv := by unfold AsicPhase; decide
    have hnot : ¬ StartsUp unopenedEnv.file := by unfold StartsUp; decide
    rcases h hphase (by decide) with hstart | hclose
    · exact hnot hstart
    · exact absurd hclose (by decide)

end OmapBootUtils.DownloadStatus
