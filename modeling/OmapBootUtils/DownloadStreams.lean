import OmapBootUtils.PeripheralSerial
import OmapBootUtils.PeripheralUsb

/-!
The bytes a peripheral boot puts on its link. From the download command on,
pserial and pusb send the same stream for a file of at most 64 KiB: the command,
the size and the file, however f_read splits the file. One counts the bytes up
in blocks of 2048, the other counts them down in blocks of 4096.
-/
namespace OmapBootUtils.DownloadStreams

open ScriptedRun ByteMemory LinkCalls ReleasedRuns SerialPort

/-- What the boot ROM is to receive from the download command on. -/
def downloadStream (file : List UInt8) : List UInt8 :=
  leBytes 4 0xF0030002 ++ leBytes 4 file.length ++ file

/-- The calls that send the download command. -/
def isDownload : LinkCall → Bool
  | .sWrite data _ => data == leBytes 4 0xF0030002
  | .bulkOut data _ _ => data == leBytes 4 0xF0030002
  | _ => false

def sinceDownload (log : List LinkCall) : List LinkCall := log.dropWhile fun c => !isDownload c

/-- Every f_read delivers something, and there are enough of them for the file. -/
def Delivers (file : List UInt8) (reads : List Outcome) : Prop :=
  (∀ o ∈ reads, ∃ n, o = some n ∧ 1 ≤ n) ∧ file.length ≤ reads.length

/-- s_write accepts its block whole, a bulk transfer moves it whole. -/
def isWhole : LinkCall → Bool
  | .sWrite data ret => ret == data.length
  | .bulkOut data ret actual => ret == 0 && actual == data.length
  | _ => true

theorem sinceDownload_append (before : List LinkCall) (c : LinkCall) (later : List LinkCall)
    (hbefore : ∀ d ∈ before, isDownload d = false) (hc : isDownload c = true) :
    sinceDownload (before ++ c :: later) = c :: later := by
  unfold sinceDownload
  rw [List.dropWhile_append_of_pos fun d hd => by simp [hbefore d hd],
    List.dropWhile_cons_of_neg (by simp [hc])]

/-! ### The two loops -/

/-- The loop of pserial passes on all that is left of the file. -/
theorem sendLoop_delivers (size : ℕ) (passes : List (Outcome × Outcome)) (totRead : ℕ)
    (rest : List UInt8) (hsize : size = totRead + rest.length)
    (hreads : Delivers rest (passes.map Prod.fst))
    (hfull : ∀ data ret,
      .sWrite data ret ∈ (PeripheralSerial.sendLoop size totRead rest passes).log →
        ret = data.length) :
    (PeripheralSerial.sendLoop size totRead rest passes).status = .done () ∧
      accepted (PeripheralSerial.sendLoop size totRead rest passes).log = rest := by
  induction passes, totRead, rest using PeripheralSerial.sendLoop_induction size with
  | finished passes totRead rest h =>
    have hnil : rest = [] := List.length_eq_zero_iff.mp (by omega)
    subst hnil
    rw [PeripheralSerial.sendLoop_finished size totRead [] passes h]
    simp [accepted]
  | waiting totRead rest h =>
    have hlen := hreads.2
    simp only [List.map_nil, List.length_nil] at hlen
    omega
  | failed write passes totRead rest h =>
    obtain ⟨n, hn, _⟩ := hreads.1 none (by simp)
    cases hn
  | pass n write passes totRead rest h ih =>
    obtain ⟨hall, hlen⟩ := hreads
    obtain ⟨m, hm, hpos⟩ := hall (some n) (by simp)
    cases hm
    have hsplit := PeripheralSerial.curRead_append size totRead n rest
    have hblock : 1 ≤ (PeripheralSerial.curRead size totRead n rest).length := by
      rw [PeripheralSerial.curRead, List.length_take, PeripheralSerial.toRead,
        PeripheralSerial.totSize]
      split <;> omega
    rw [PeripheralSerial.sendLoop_pass size totRead n rest write passes h] at hfull ⊢
    generalize PeripheralSerial.curRead size totRead n rest = block at *
    have hmoved := hfull block (moved block write) (by simp)
    have hrest : rest.length = block.length + (rest.drop block.length).length := by
      rw [← List.length_append, hsplit]
    have hlater : Delivers (rest.drop block.length) (passes.map Prod.fst) := by
      refine ⟨fun o ho => hall o (List.mem_cons_of_mem _ ho), ?_⟩
      simp only [List.map_cons, List.length_cons] at hlen ⊢
      omega
    obtain ⟨hstatus, haccepted⟩ := ih (by omega) hlater
      fun data ret hmem => hfull data ret (List.mem_append_right _ hmem)
    refine ⟨hstatus, ?_⟩
    rw [Run.after_log, accepted_append, haccepted]
    conv_rhs => rw [← hsplit]
    exact congrArg (· ++ rest.drop block.length) (accepted_full block _ hmoved)

/-- The loop of pusb passes on all that is left of the file. -/
theorem pumpLoop_delivers (passes : List (Outcome × PeripheralUsb.Bulk))
    (rest : List UInt8) (hsize : rest.length < 2 ^ 32)
    (hreads : Delivers rest (passes.map Prod.fst))
    (hfull : ∀ data ret actual,
      .bulkOut data ret actual ∈ (PeripheralUsb.pumpLoop rest.length rest passes).log →
        ret = 0 ∧ actual = data.length) :
    (PeripheralUsb.pumpLoop rest.length rest passes).status = .done 0 ∧
      bulkMoved (PeripheralUsb.pumpLoop rest.length rest passes).log = rest := by
  induction passes generalizing rest with
  | nil =>
    obtain ⟨_, hlen⟩ := hreads
    have hnil : rest = [] := List.length_eq_zero_iff.mp (by simpa using hlen)
    subst hnil
    simp [PeripheralUsb.pumpLoop, bulkMoved]
  | cons pass passes ih =>
    by_cases hempty : rest = []
    · subst hempty
      rw [List.length_nil, PeripheralUsb.pumpLoop_finished]
      simp [bulkMoved]
    · obtain ⟨read, bulk⟩ := pass
      obtain ⟨hall, hlen⟩ := hreads
      obtain ⟨n, hn, hpos⟩ := hall read (by simp)
      subst hn
      have hne : rest.length ≠ 0 := mt List.length_eq_zero_iff.mp hempty
      have hlater := PeripheralUsb.pumpLoop_pass rest.length n rest bulk passes hne
      have hblock : 1 ≤ (rest.take (min n PeripheralUsb.readBufferSize)).length := by
        rw [List.length_take, PeripheralUsb.readBufferSize]
        omega
      have hle : (rest.take (min n PeripheralUsb.readBufferSize)).length ≤ rest.length :=
        List.length_take_le' _ _
      have hsplit : rest.take (min n PeripheralUsb.readBufferSize) ++
          rest.drop (rest.take (min n PeripheralUsb.readBufferSize)).length = rest :=
        List.prefix_iff_eq_append.mp (List.take_prefix _ _)
      generalize rest.take (min n PeripheralUsb.readBufferSize) = block at *
      rw [hlater] at hfull ⊢
      obtain ⟨hret, hactual⟩ := hfull block bulk.ret (min bulk.actual block.length : ℕ) (by simp)
      have hmin : min bulk.actual block.length = block.length := by omega
      have hcount : bulk.count block.length = block.length := by
        rw [PeripheralUsb.Bulk.count, if_neg (not_not.mpr hret), hmin]
      have hdrop : (rest.length + 2 ^ 32 - block.length) % 2 ^ 32 =
          (rest.drop block.length).length := by
        rw [List.length_drop]
        omega
      rw [if_neg (not_not.mpr hcount), hdrop] at hfull ⊢
      obtain ⟨hstatus, hmoved⟩ := ih (rest.drop block.length)
        (by rw [List.length_drop]; omega)
        ⟨fun o ho => hall o (List.mem_cons_of_mem _ ho), by
          simp only [List.length_drop, List.map_cons, List.length_cons] at hlen ⊢
          omega⟩
        (fun data ret actual hmem => hfull data ret actual (List.mem_append_right _ hmem))
      refine ⟨hstatus, ?_⟩
      rw [Run.after_log, bulkMoved_append, hmoved]
      conv_rhs => rw [← hsplit]
      exact congrArg (· ++ rest.drop block.length) (bulkMoved_full block bulk.ret _ hactual)

/-! ### The two runs -/

section
variable (file : List UInt8)

/-- A run of pserial past the ASIC ID in which every write is accepted in full. -/
structure SerialDownload (env : PeripheralSerial.PserialEnv) : Prop where
  phase : PeripheralSerial.AsicPhase env
  size : env.file.fSize = some file.length
  opened : env.file.fOpen = true
  reads : Delivers file (env.file.passes.map Prod.fst)
  full : ∀ c ∈ (PeripheralSerial.pserialMain file env).log, isWhole c = true

/-- A run of pusb past the ASIC ID in which every transfer moves its whole block. -/
structure UsbDownload (asicidSize : ℕ) (env : PeripheralUsb.PusbEnv) : Prop where
  phase : PeripheralUsb.AsicPhase asicidSize env
  size : env.fSize = some file.length
  reads : Delivers file (env.passes.map Prod.fst)
  full : ∀ c ∈ (PeripheralUsb.sendFile asicidSize file env).log, isWhole c = true

/-- send_file of pserial, when its writes are accepted in full. -/
theorem serial_sendFile_stream (env : PeripheralSerial.SendFileEnv)
    (hfile : file.length ≤ 64 * 1024) (hsize : env.fSize = some file.length)
    (hopen : env.fOpen = true) (hreads : Delivers file (env.passes.map Prod.fst))
    (hfull : ∀ data ret, .sWrite data ret ∈ (PeripheralSerial.sendFile file env).log →
      ret = data.length) :
    (PeripheralSerial.sendFile file env).status = .done 0 ∧
      accepted (PeripheralSerial.sendFile file env).log = leBytes 4 file.length ++ file := by
  have hnat : env.size = file.length := by
    rw [PeripheralSerial.SendFileEnv.size, hsize, fSizeRet, Int.bmod_eq_of_le] <;> omega
  have hopened := PeripheralSerial.sendFile_opened file env (by omega) hopen
  have hword : wordTaken env.sizeWrite = true := by
    rw [← moved_word_eq_iff (leBytes 4 env.size.toNat) (leBytes_length 4 _)]
    have hret := hfull (leBytes 4 env.size.toNat)
      (moved (leBytes 4 env.size.toNat) env.sizeWrite) (by rw [hopened]; simp)
    rwa [leBytes_length] at hret
  have hstart : PeripheralSerial.StartsUp env := ⟨by omega, hopen, hword⟩
  have hrun := PeripheralSerial.sendFile_started file env hstart
  obtain ⟨hstatus, haccepted⟩ := sendLoop_delivers env.size.toNat env.passes 0 file (by omega)
    hreads fun data ret hmem => hfull data ret (by
      rw [hrun, Run.after_log]
      exact List.mem_append_right _ ((Run.log_prefix_bind _ _).subset hmem))
  constructor
  · rw [PeripheralSerial.sendFile_status_zero_iff]
    exact ⟨hstart, (PeripheralSerial.sendLoop_status _ _ _ _).mp hstatus⟩
  · rw [PeripheralSerial.sendFile_accepted file env hstart, haccepted, hnat, Int.toNat_natCast]

/-- Before the download command main only opens the port and reads. -/
theorem serial_prologue (env : PeripheralSerial.PserialEnv) (h : PeripheralSerial.AsicPhase env)
    (hword : wordTaken env.commandWrite = true) :
    sinceDownload (PeripheralSerial.pserialMain file env).log =
      .sWrite (leBytes 4 0xF0030002) 4 ::
        (PeripheralSerial.sendFile file env.file >>= fun _ => closePort env.port).log := by
  rw [PeripheralSerial.pserialMain_asicPhase file env h,
    PeripheralSerial.sendCommandAndFile_taken file env hword, Run.after_log, Run.after_log]
  refine sinceDownload_append _ _ _ ?_ (by decide)
  intro d hd
  rcases List.mem_append.mp hd with hd | hd
  · simp only [List.mem_cons, List.not_mem_nil, or_false] at hd
    rcases hd with rfl | rfl <;> rfl
  · have hread := (PeripheralSerial.awaitAsicId_onlyReads env.first env.reads).avoids d hd
    cases d with
    | sRead size data => rfl
    | _ => exact absurd trivial hread

theorem serial_stream (env : PeripheralSerial.PserialEnv) (hfile : file.length ≤ 64 * 1024)
    (h : SerialDownload file env) :
    (∃ ret, (PeripheralSerial.pserialMain file env).status = .done ret) ∧
      accepted (sinceDownload (PeripheralSerial.pserialMain file env).log) =
        downloadStream file := by
  have hmain := PeripheralSerial.pserialMain_asicPhase file env h.phase
  have hfull : ∀ data ret, .sWrite data ret ∈ (PeripheralSerial.pserialMain file env).log →
      ret = data.length := fun data ret hmem => by simpa [isWhole] using h.full _ hmem
  have hword : wordTaken env.commandWrite = true := by
    by_contra hrefused
    rw [Bool.not_eq_true] at hrefused
    have hret := hfull (leBytes 4 PeripheralSerial.downloadCommand)
      (moved (leBytes 4 PeripheralSerial.downloadCommand) env.commandWrite) (by
        rw [hmain, PeripheralSerial.sendCommandAndFile_refused file env hrefused]
        simp)
    rw [leBytes_length] at hret
    have hmoved := (moved_word_eq_iff _ (leBytes_length 4 _) _).mp hret
    rw [hrefused] at hmoved
    cases hmoved
  rw [PeripheralSerial.sendCommandAndFile_taken file env hword, Run.after_after] at hmain
  obtain ⟨hstatus, haccepted⟩ := serial_sendFile_stream file env.file hfile h.size h.opened h.reads
    fun data ret hmem => hfull data ret (by
      rw [hmain, Run.after_log]
      exact List.mem_append_right _ ((Run.log_prefix_bind _ _).subset hmem))
  constructor
  · refine ⟨serialRet env.port.sClose, ?_⟩
    rw [hmain, Run.after_status, Run.bind_of_done _ _ _ hstatus]
    rfl
  · rw [serial_prologue file env h.phase hword, Run.bind_of_done _ _ _ hstatus, downloadStream]
    have hclose : accepted (closePort env.port).log = [] := rfl
    have hcommand := accepted_full (leBytes 4 0xF0030002) 4 (by rw [leBytes_length]; rfl)
    rw [← List.singleton_append, accepted_append, Run.after_log, accepted_append, haccepted,
      hclose, hcommand, List.append_nil, List.append_assoc]

/-- Before the download command send_file opens the file and the device and asks for the
ASIC ID. -/
theorem usb_prologue (asicidSize : ℕ) (env : PeripheralUsb.PusbEnv) :
    ∀ c ∈ [.fSize (fSizeRet env.fSize), .fOpen fileOk, .claimInterface 0] ++
      (PeripheralUsb.readAsicId asicidSize env).log, isDownload c = false := by
  intro c hc
  rcases List.mem_append.mp hc with hc | hc
  · simp only [List.mem_cons, List.not_mem_nil, or_false] at hc
    rcases hc with rfl | rfl | rfl <;> rfl
  · rcases PeripheralUsb.readAsicId_log asicidSize env c hc with
      ⟨_, _, _, rfl⟩ | ⟨_, _, rfl⟩
    · rfl
    · simp only [isDownload]
      decide

theorem usb_stream (asicidSize : ℕ) (env : PeripheralUsb.PusbEnv)
    (hfile : file.length ≤ 64 * 1024) (h : UsbDownload file asicidSize env) :
    (∃ ret, (PeripheralUsb.sendFile asicidSize file env).status = .done ret) ∧
      bulkMoved (sinceDownload (PeripheralUsb.sendFile asicidSize file env).log) =
        downloadStream file := by
  have hnat : env.filesize = file.length := by
    rw [PeripheralUsb.PusbEnv.filesize, h.size, fSizeRet]
    omega
  have hrun := PeripheralUsb.sendFile_asicPhase asicidSize file env h.phase
    (by rw [hnat]; exact hfile)
  rw [PeripheralUsb.sendCommandAndFile_eq] at hrun
  have hfull : ∀ data ret actual,
      .bulkOut data ret actual ∈ (PeripheralUsb.sendFile asicidSize file env).log →
        ret = 0 ∧ actual = data.length :=
    fun data ret actual hmem => by simpa [isWhole] using h.full _ hmem
  have hcommand : env.download.count 4 = PeripheralUsb.commandSize := by
    obtain ⟨hret, hactual⟩ := hfull (leBytes 4 PeripheralUsb.downloadCommand) env.download.ret
      (min env.download.actual 4 : ℕ) (by rw [hrun]; simp)
    exact PeripheralUsb.Bulk.count_of_full _ _ hret (by rw [hactual, leBytes_length])
  rw [if_pos hcommand] at hrun
  have hword : env.sizeWord.count 4 = 4 := by
    obtain ⟨hret, hactual⟩ := hfull (leBytes 4 env.filesize) env.sizeWord.ret
      (min env.sizeWord.actual 4 : ℕ) (by rw [hrun]; simp)
    exact PeripheralUsb.Bulk.count_of_full _ _ hret (by rw [hactual, leBytes_length])
  rw [if_neg (not_not.mpr hword), hnat, Run.after_bind, Run.after_bind] at hrun
  obtain ⟨hstatus, hmoved⟩ := pumpLoop_delivers env.passes file (by omega) h.reads
    fun data ret actual hmem => hfull data ret actual (by
      rw [hrun]
      refine List.mem_append_right _ (List.mem_append_right _ (List.mem_append_right _ ?_))
      exact (Run.log_prefix_bind _ _).subset hmem)
  obtain ⟨_, hcommandMoved⟩ := hfull (leBytes 4 PeripheralUsb.downloadCommand) env.download.ret
    (min env.download.actual 4 : ℕ) (by rw [hrun]; simp)
  obtain ⟨_, hwordMoved⟩ := hfull (leBytes 4 file.length) env.sizeWord.ret
    (min env.sizeWord.actual 4 : ℕ) (by rw [hrun]; simp)
  rw [Run.bind_of_done _ _ _ hstatus] at hrun
  constructor
  · obtain ⟨ret, hret⟩ := PeripheralUsb.closeup_done env 0
    exact ⟨ret, by rw [hrun]; exact hret⟩
  · rw [hrun, Run.after_log, Run.after_log, List.singleton_append,
      sinceDownload_append _ _ _ (usb_prologue asicidSize env)
        (by simp only [isDownload]; decide),
      ← List.singleton_append, bulkMoved_append, bulkMoved_full _ _ _ hcommandMoved,
      Run.after_log, bulkMoved_append, bulkMoved_full _ _ _ hwordMoved, Run.after_log,
      bulkMoved_append, hmoved, PeripheralUsb.closeup_bulkMoved, List.append_nil, downloadStream,
      List.append_assoc]
    rfl

/-- Both downloaders return, and what they put on the link from the download command
on is the command, the size and the file. -/
theorem downloads_agree (hfile : file.length ≤ 64 * 1024) (asicidSize : ℕ)
    (serial : PeripheralSerial.PserialEnv) (usb : PeripheralUsb.PusbEnv)
    (hserial : SerialDownload file serial) (husb : UsbDownload file asicidSize usb) :
    (∃ ret, (PeripheralSerial.pserialMain file serial).status = .done ret) ∧
    (∃ ret, (PeripheralUsb.sendFile asicidSize file usb).status = .done ret) ∧
    accepted (sinceDownload (PeripheralSerial.pserialMain file serial).log) =
      downloadStream file ∧
    bulkMoved (sinceDownload (PeripheralUsb.sendFile asicidSize file usb).log) =
      downloadStream file := by
  obtain ⟨hserialDone, hserialStream⟩ := serial_stream file serial hfile hserial
  obtain ⟨husbDone, husbStream⟩ := usb_stream file asicidSize usb hfile husb
  exact ⟨hserialDone, husbDone, hserialStream, husbStream⟩

end

/-- Three bytes in two reads, after an ASIC ID of an OMAP4430. -/
def serialExample : PeripheralSerial.PserialEnv where
  port := ⟨true, true, true⟩
  first := 0
  reads := [some [0x04], some [1, 5, 1, 0x44, 0x30, 7, 4], some (List.replicate 59 0)]
  commandWrite := some 4
  file := {
    fSize := some 3
    fOpen := true
    sizeWrite := some 4
    passes := [(some 1, some 1), (some 2, some 2), (some 1, none)]
    fClose := true }

/-- The same bytes in three reads, after an ASIC ID that had to be requested. -/
def usbExample : PeripheralUsb.PusbEnv where
  fSize := some 3
  fOpen := true
  claimInterface := 0
  asicId := ⟨-7, 0⟩
  getAsicId := ⟨0, 4⟩
  asicIdAgain := ⟨0, 81⟩
  download := ⟨0, 4⟩
  sizeWord := ⟨0, 4⟩
  passes := [(some 1, ⟨0, 1⟩), (some 1, ⟨0, 1⟩), (some 9, ⟨0, 1⟩)]
  releaseInterface := 0
  fClose := true

theorem downloads_agree_three_bytes :
    accepted (sinceDownload (PeripheralSerial.pserialMain [7, 8, 9] serialExample).log) =
      downloadStream [7, 8, 9] ∧
    bulkMoved (sinceDownload (PeripheralUsb.sendFile 81 [7, 8, 9] usbExample).log) =
      downloadStream [7, 8, 9] := by
  have hserial : SerialDownload [7, 8, 9] serialExample :=
    ⟨by unfold PeripheralSerial.AsicPhase; decide, rfl, rfl,
      ⟨by simp [serialExample], by decide⟩, by decide⟩
  have husb : UsbDownload [7, 8, 9] 81 usbExample :=
    ⟨by unfold PeripheralUsb.AsicPhase; decide, rfl,
      ⟨by simp [usbExample], by decide⟩, by decide⟩
  exact (downloads_agree [7, 8, 9] (by decide) 81 serialExample usbExample hserial husb).2.2

end OmapBootUtils.DownloadStreams
