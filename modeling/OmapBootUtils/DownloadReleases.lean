import OmapBootUtils.KermitReads
import OmapBootUtils.PeripheralSerial
import OmapBootUtils.PeripheralUsb

/-!
What the download functions give back of what they take. Once the file is open,
k_send_data leaves without f_close wherever its loop is left by a return, pserial's
send_file where the size word is not accepted and pusb's where the interface cannot
be claimed. As for the port, a run in undefined behaviour counts as ended.
-/
namespace OmapBootUtils.DownloadReleases

open ScriptedRun ByteMemory LinkCalls ReleasedRuns

/-! ### The file of file_posix.c -/

/-- f_open, with what fopen does: the result, and whether the file is then open. -/
def fOpen (isOpen fopenOk : Bool) : ℤ × Bool :=
  if isOpen then (fileError, isOpen)
  else if fopenOk then (fileOk, true)
  else (fileError, false)

/-- f_close, with what fclose does: the file is forgotten also if that fails. -/
def fClose (isOpen fcloseOk : Bool) : ℤ × Bool :=
  if !isOpen then (fileError, isOpen)
  else if !fcloseOk then (fileError, false)
  else (fileOk, false)

/-- Whether the file is open after a call, told by the result of the call. -/
def fileStep (isOpen : Bool) : LinkCall → Bool
  | .fOpen ret => if ret = fileOk then true else isOpen
  | .fClose _ => false
  | _ => isOpen

theorem fileStep_fOpen (isOpen fopenOk : Bool) :
    fileStep isOpen (.fOpen (fOpen isOpen fopenOk).1) = (fOpen isOpen fopenOk).2 := by
  cases isOpen <;> cases fopenOk <;> rfl

theorem fileStep_fClose (isOpen fcloseOk : Bool) :
    fileStep isOpen (.fClose (fClose isOpen fcloseOk).1) = (fClose isOpen fcloseOk).2 := by
  cases isOpen <;> cases fcloseOk <;> rfl

/-- The file is closed when a download starts. -/
def fileAfter (log : List LinkCall) : Bool := log.foldl fileStep false

/-- Where the run ends, a later f_open is not refused. -/
def ClosesFile {α : Type} (x : Link α) : Prop :=
  x.status ≠ .waiting → (fOpen (fileAfter x.log) true).1 = fileOk

def FileOpened (c : LinkCall) : Prop := c = .fOpen fileOk

def FileClosed (c : LinkCall) : Prop := ∃ ret, c = .fClose ret

theorem FileOpened.controls {c : LinkCall} (h : FileOpened c) : c.Controls := by
  rw [h]
  trivial

theorem FileClosed.controls {c : LinkCall} (h : FileClosed c) : c.Controls := by
  obtain ⟨ret, rfl⟩ := h
  trivial

theorem fileStep_tracks : Tracks FileOpened FileClosed fileStep where
  acquired := by
    intro isOpen c hc
    rw [hc]
    rfl
  released := by
    intro isOpen c hc
    obtain ⟨ret, rfl⟩ := hc
    rfl
  kept := by
    intro isOpen c hopen hclose
    cases c with
    | fOpen ret =>
      have hret : ret ≠ fileOk := fun h => hopen (by rw [h]; rfl)
      rw [fileStep, if_neg hret]
    | fClose ret => exact absurd ⟨ret, rfl⟩ hclose
    | _ => rfl

/-- The file is closed at the end exactly if each f_open is followed by an f_close. -/
theorem closesFile_iff {α : Type} (x : Link α) :
    ClosesFile x ↔ HandsBack FileOpened FileClosed x := by
  rw [fileStep_tracks.handsBack_iff]
  apply imp_congr_right
  intro _
  change _ ↔ fileAfter x.log = false
  cases fileAfter x.log <;> simp [fOpen, fileOk, fileError]

/-- A run that does not open the file has nothing to close. -/
theorem closesFile_of_avoids {α : Type} (x : Link α) (h : Avoids FileOpened x) : ClosesFile x :=
  (closesFile_iff x).mpr (HandsBack.of_avoids _ _ x h)

/-- With the file opened once, closing it is up to what follows. -/
theorem closesFile_opened_iff {α : Type} (l m : List LinkCall) (x : Link α)
    (hl : ∀ c ∈ l, ¬ FileOpened c) (hm : ∀ c ∈ m, ¬ FileOpened c ∧ ¬ FileClosed c)
    (hx : Avoids FileOpened x) :
    ClosesFile (Run.after (l ++ .fOpen fileOk :: m) x) ↔ Releases FileClosed x := by
  have hrest : Avoids FileOpened (Run.after m x) :=
    Avoids.after _ _ _ (fun c hc => (hm c hc).1) hx
  rw [closesFile_iff, List.append_cons, ← Run.after_after,
    handsBack_iff FileOpened FileClosed l _ _ hl rfl hrest,
    releases_after_iff _ _ _ fun c hc => (hm c hc).2]

/-! ### ukermit -/

section Ukermit
open KermitPacket KermitTransfer KermitRounds KermitReads
variable (signedChar : Bool)

/-- The file loop is left by a return or runs into undefined behaviour: a chunk is
given up, or an f_read fails and its packet is tried. -/
def LeavesEarly : ℕ → ℕ → List UInt8 → List Outcome → List Attempt → Prop
  | _, _, _, [], _ => False
  | _, size, _, none :: _, attempts => size ≠ 0 ∧ attempts ≠ []
  | k, size, rest, some n :: reads, attempts => size ≠ 0 ∧
      (GivenUp signedChar (k % 128) 0 attempts ∨
        ∃ left, leftAfterAck signedChar (k % 128) 0 attempts = some left ∧
          LeavesEarly (k + 1) (size - (readChunk size n rest).length)
            (rest.drop (readChunk size n rest).length) reads left)

/-- The file loop returns from k_send_data, or crashes. -/
def EndsInside : Status (Option ℤ) → Prop
  | .waiting => False
  | .undefined => True
  | .done exit => exit ≠ none

theorem not_endsInside_iff (s : Status (Option ℤ)) :
    ¬ EndsInside s ↔ s ≠ .undefined ∧ ∀ exit, s = .done exit → exit = none := by
  cases s <;> simp [EndsInside]

theorem failedChunk_endsInside_iff (attempts : List Attempt) :
    EndsInside (failedChunk attempts).status ↔ attempts ≠ [] := by
  cases attempts with
  | nil => simp [EndsInside, failedChunk]
  | cons a attempts => cases ha : a.callocOk <;> simp [EndsInside, failedChunk, ha]

theorem transferLoop_endsInside_iff (reads : List Outcome) (k size : ℕ) (rest : List UInt8)
    (attempts : List Attempt) :
    EndsInside (transferLoop signedChar reads size (sequenceAt k) rest attempts).status ↔
      LeavesEarly signedChar k size rest reads attempts := by
  induction reads generalizing k size rest attempts with
  | nil =>
    rw [transferLoop, Build.transferLoop, LeavesEarly]
    split <;> simp [EndsInside]
  | cons outcome reads ih =>
    by_cases hsize : size = 0
    · subst hsize
      rw [transferLoop_zero]
      cases outcome <;> simp [EndsInside, LeavesEarly]
    · cases outcome with
      | none =>
        rw [transferLoop_failed signedChar reads size (sequenceAt k) rest attempts hsize,
          failedChunk_endsInside_iff, LeavesEarly, and_iff_right hsize]
      | some n =>
        rw [transferLoop_ends_iff signedChar EndsInside not_false True (by simp [EndsInside]) n
          reads k size rest attempts hsize, and_true, LeavesEarly, and_iff_right hsize]
        simp only [ih]

theorem afterLoop_avoids (env : KermitEnv) (exit : Option ℤ) :
    Avoids FileOpened (afterLoop env exit) := by
  cases exit with
  | some ret => exact Avoids.pure _ _
  | none => exact Avoids.after _ _ _ (by simp [FileOpened]) (Avoids.pure _ _)

theorem afterLoop_releases_iff (env : KermitEnv) (exit : Option ℤ) :
    Releases FileClosed (afterLoop env exit) ↔ exit = none := by
  cases exit with
  | some ret =>
    rw [iff_false_right (Option.some_ne_none ret)]
    exact not_releases _ _ (Avoids.pure _ _) (by simp [afterLoop])
  | none =>
    rw [iff_true_right rfl]
    exact Releases.of_mem _ _ _ (.fClose env.fClose) (by simp) ⟨_, rfl⟩

/-- k_send_data comes to a return inside its loop, or to undefined behaviour there. -/
def KeepsFile (file : List UInt8) (env : KermitEnv) : Prop :=
  ∃ size, env.fSize = some size ∧ env.fOpen = fileOk ∧
    LeavesEarly signedChar 0 size file env.reads env.attempts

theorem kSendData_closesFile_iff (file : List UInt8) (env : KermitEnv) :
    ClosesFile (kSendData signedChar file env) ↔ ¬ KeepsFile signedChar file env := by
  cases hsize : env.fSize with
  | none =>
    have hkept : ¬ KeepsFile signedChar file env := by simp [KeepsFile, hsize]
    refine iff_of_true (closesFile_of_avoids _ ?_) hkept
    simp [kSendData, Build.kSendData, hsize, Avoids, FileOpened]
  | some size =>
    by_cases hopen : env.fOpen = fileOk
    · have hmoves := transferLoop_onlyMoves signedChar env.reads size (sequenceAt 0) file
        env.attempts
      have hopens := hmoves.mono FileOpened _ fun _ hc => hc.controls
      have hcloses := hmoves.mono FileClosed _ fun _ hc => hc.controls
      have hkept : KeepsFile signedChar file env ↔
          LeavesEarly signedChar 0 size file env.reads env.attempts := by
        simp [KeepsFile, hsize, hopen]
      rw [kSendData_opened signedChar file env size hsize hopen, hkept,
        ← transferLoop_endsInside_iff, not_endsInside_iff]
      refine (closesFile_opened_iff [.fSize _] [] _ (by simp [FileOpened]) (by simp)
        (Avoids.bind _ _ _ hopens (afterLoop_avoids env))).trans ?_
      rw [releases_bind_iff _ _ _ hcloses]
      simp only [afterLoop_releases_iff]
    · have hkept : ¬ KeepsFile signedChar file env := by simp [KeepsFile, hopen]
      refine iff_of_true (closesFile_of_avoids _ ?_) hkept
      rw [kSendData_not_open signedChar file env size hsize hopen]
      simp [Avoids, FileOpened, hopen]

end Ukermit

/-! ### pserial -/

section Pserial
open PeripheralSerial
variable (file : List UInt8) (env : SendFileEnv)

theorem serialSend_closesFile_iff :
    ClosesFile (PeripheralSerial.sendFile file env) ↔
      ¬ (0 ≤ env.size ∧ env.fOpen = true ∧ wordTaken env.sizeWrite = false) := by
  by_cases hsize : 0 ≤ env.size
  · cases hopen : env.fOpen with
    | false =>
      refine iff_of_true (closesFile_of_avoids _ ?_) (by simp)
      simp [PeripheralSerial.sendFile, Int.not_lt.mpr hsize, hopen, Avoids, FileOpened, fileRet,
        fileError, fileOk]
    | true =>
      have hmoves := sendLoop_onlyMoves env.size.toNat env.passes 0 file
      have hmoved := moved_word_eq_iff (leBytes 4 env.size.toNat) (leBytes_length 4 _)
        env.sizeWrite
      rw [sendFile_opened file env hsize hopen]
      refine (closesFile_opened_iff [.fSize _] [.sWrite _ _] _ (by simp [FileOpened])
        (by simp [FileOpened, FileClosed]) ?_).trans ?_
      · split
        · exact Avoids.pure _ _
        · exact Avoids.bind _ _ _ (hmoves.mono FileOpened _ fun _ hc => hc.controls).avoids
            fun _ => Avoids.after _ _ _ (by simp [FileOpened]) (Avoids.pure _ _)
      · cases hword : wordTaken env.sizeWrite with
        | false =>
          rw [if_pos (mt hmoved.mp (by simp [hword]))]
          simp only [hsize, and_self, not_true_eq_false, iff_false]
          exact not_releases _ _ (Avoids.pure _ _) (by simp)
        | true =>
          rw [if_neg (not_not.mpr (hmoved.mpr hword)), Steady.releases_bind_iff _ _ _
            (hmoves.mono FileClosed _ fun _ hc => hc.controls)]
          simp only [reduceCtorEq, and_false, not_false_eq_true, iff_true]
          intro _ _
          exact Releases.of_mem _ _ _ _ (List.mem_singleton_self _) ⟨_, rfl⟩
  · refine iff_of_true (closesFile_of_avoids _ ?_) (fun h => hsize h.1)
    simp [PeripheralSerial.sendFile, Int.not_le.mp hsize, Avoids, FileOpened]

end Pserial

/-! ### pusb -/

section Pusb
open PeripheralUsb
variable (asicidSize : ℕ) (file : List UInt8) (env : PusbEnv)

def Claimed (c : LinkCall) : Prop := c = .claimInterface 0

def Released (c : LinkCall) : Prop := ∃ ret, c = .releaseInterface ret

def HandleClosed (c : LinkCall) : Prop := c = .usbClose

theorem Claimed.controls {c : LinkCall} (h : Claimed c) : c.Controls := by
  rw [h]
  trivial

theorem Released.controls {c : LinkCall} (h : Released c) : c.Controls := by
  obtain ⟨ret, rfl⟩ := h
  trivial

theorem HandleClosed.controls {c : LinkCall} (h : HandleClosed c) : c.Controls := by
  rw [h]
  trivial

/-- The interface is released after it was claimed, and only then. -/
def ReleasesIffClaimed (x : Link ℤ) : Prop :=
  HandsBack Claimed Released x ∧ (Avoids Claimed x → Avoids Released x)

theorem pumpLoop_onlyMoves (passes : List (Outcome × Bulk)) (filesize : ℕ) (rest : List UInt8) :
    Steady LinkCall.Controls (pumpLoop filesize rest passes) := by
  induction passes, filesize, rest using pumpLoop_induction with
  | finished passes rest =>
    rw [pumpLoop_finished]
    exact Steady.pure _ _
  | waiting filesize rest h =>
    rw [pumpLoop_waiting filesize rest h]
    exact Steady.block _
  | failed bulk passes filesize rest h =>
    rw [pumpLoop_failed filesize rest bulk passes h]
    exact Steady.after _ _ _ (by simp [LinkCall.Controls]) (Steady.pure _ _)
  | pass n bulk passes filesize rest h ih =>
    rw [pumpLoop_pass filesize n rest bulk passes h]
    apply Steady.after _ _ _ (by simp [LinkCall.Controls])
    split
    · exact Steady.pure _ _
    · exact ih

theorem readAsicId_onlyMoves : Steady LinkCall.Controls (readAsicId asicidSize env) where
  avoids := by
    intro c hc
    rcases readAsicId_log asicidSize env c hc with ⟨length, ret, actual, rfl⟩ | ⟨ret, actual, rfl⟩
    · exact not_false
    · exact not_false
  defined := by
    rw [readAsicId_status]
    simp

theorem sendCommandAndFile_onlyMoves :
    Steady LinkCall.Controls (PeripheralUsb.sendCommandAndFile file env) := by
  rw [sendCommandAndFile_eq]
  apply Steady.after _ _ _ (by simp [LinkCall.Controls])
  split
  · apply Steady.after _ _ _ (by simp [LinkCall.Controls])
    split
    · exact Steady.pure _ _
    · exact pumpLoop_onlyMoves _ _ _
  · exact Steady.pure _ _

theorem transfer_onlyMoves : Steady LinkCall.Controls (transfer asicidSize file env) := by
  apply Steady.bind _ _ _ (readAsicId_onlyMoves asicidSize env)
  intro got
  split
  · exact sendCommandAndFile_onlyMoves file env
  · exact Steady.pure _ _

/-- What send_file does once the file is open. -/
theorem sendFile_opened (hsize : env.filesize ≤ maxSize) (hopen : env.fOpen = true) :
    PeripheralUsb.sendFile asicidSize file env =
      Run.after ([.fSize (fSizeRet env.fSize)] ++ .fOpen fileOk ::
          [.claimInterface env.claimInterface])
        (if env.claimInterface ≠ 0 then pure env.claimInterface
        else transfer asicidSize file env >>= closeup env) := by
  simp [PeripheralUsb.sendFile, Nat.not_lt.mpr hsize, hopen, fileRet]

/-- Without that it returns, and has taken nothing. -/
theorem sendFile_not_opened (h : ¬ (env.filesize ≤ maxSize ∧ env.fOpen = true))
    (p : LinkCall → Prop) (hsize : ∀ ret, ¬ p (.fSize ret)) (hfail : ¬ p (.fOpen fileError)) :
    Avoids p (PeripheralUsb.sendFile asicidSize file env) ∧
      (PeripheralUsb.sendFile asicidSize file env).status ≠ .waiting := by
  by_cases hle : env.filesize ≤ maxSize
  · have hopen : env.fOpen = false := by simpa [hle] using h
    simp [PeripheralUsb.sendFile, Nat.not_lt.mpr hle, hopen, fileRet, Avoids, hsize, hfail]
  · simp [PeripheralUsb.sendFile, Nat.lt_of_not_le hle, Avoids, hsize]

theorem closeup_avoids (p : LinkCall → Prop) (hp : ¬ p (.releaseInterface env.releaseInterface))
    (hclose : ¬ p .usbClose) (hfile : ¬ p (.fClose (fileRet env.fClose))) (fail : ℤ) :
    Avoids p (closeup env fail) := by
  simp [closeup, Avoids, hp, hclose, hfile]

/-- What closeup gives back is given back, however the transfer ends. -/
theorem transfer_releases (p : LinkCall → Prop) (hp : ∀ c, p c → c.Controls)
    (hcloseup : ∀ fail, ∃ c ∈ (closeup env fail).log, p c) :
    Releases p (transfer asicidSize file env >>= closeup env) := by
  rw [Steady.releases_bind_iff _ _ _ ((transfer_onlyMoves asicidSize file env).mono _ _ hp)]
  intro fail _ _
  exact hcloseup fail

theorem usbSend_closesFile_iff :
    ClosesFile (PeripheralUsb.sendFile asicidSize file env) ↔
      ¬ (env.filesize ≤ maxSize ∧ env.fOpen = true ∧ env.claimInterface ≠ 0) := by
  by_cases htaken : env.filesize ≤ maxSize ∧ env.fOpen = true
  · obtain ⟨hsize, hopen⟩ := htaken
    have hmoves := (transfer_onlyMoves asicidSize file env).avoids.mono FileOpened _
      fun _ hc => hc.controls
    rw [sendFile_opened asicidSize file env hsize hopen, closesFile_opened_iff _ _ _
      (by simp [FileOpened]) (by simp [FileOpened, FileClosed])]
    · split
      case isTrue hclaim =>
        rw [iff_false_left (not_releases _ _ (Avoids.pure _ _) (by simp)), not_not]
        exact ⟨hsize, hopen, hclaim⟩
      case isFalse hclaim =>
        refine iff_of_true ?_ fun h => hclaim h.2.2
        exact transfer_releases asicidSize file env FileClosed (fun _ hc => hc.controls)
          fun fail => ⟨.fClose (fileRet env.fClose), by simp [closeup], _, rfl⟩
    · split
      · exact Avoids.pure _ _
      · exact Avoids.bind _ _ _ hmoves (closeup_avoids env _ (by simp [FileOpened])
          (by simp [FileOpened]) (by simp [FileOpened]))
  · refine iff_of_true (closesFile_of_avoids _ ?_) fun h => htaken ⟨h.1, h.2.1⟩
    exact (sendFile_not_opened asicidSize file env htaken FileOpened (by simp [FileOpened])
      (by simp [FileOpened, fileOk, fileError])).1

theorem usbSend_releasesIffClaimed :
    ReleasesIffClaimed (PeripheralUsb.sendFile asicidSize file env) := by
  have hnone : ∀ x : Link ℤ, Avoids Claimed x → Avoids Released x → ReleasesIffClaimed x :=
    fun x hclaimed hreleased => ⟨HandsBack.of_avoids _ _ x hclaimed, fun _ => hreleased⟩
  by_cases htaken : env.filesize ≤ maxSize ∧ env.fOpen = true
  · obtain ⟨hsize, hopen⟩ := htaken
    rw [sendFile_opened asicidSize file env hsize hopen]
    split
    case isTrue hclaim =>
      apply hnone
      · exact Avoids.after _ _ _ (by simp [Claimed, hclaim]) (Avoids.pure _ _)
      · exact Avoids.after _ _ _ (by simp [Released]) (Avoids.pure _ _)
    case isFalse hclaim =>
      have hzero := not_not.mp hclaim
      have hmoves := (transfer_onlyMoves asicidSize file env).avoids.mono Claimed _
        fun _ hc => hc.controls
      have hclaimed : ¬ Avoids Claimed (Run.after ([.fSize (fSizeRet env.fSize)] ++
          .fOpen fileOk :: [.claimInterface env.claimInterface])
            (transfer asicidSize file env >>= closeup env)) :=
        fun h => h (.claimInterface 0) (by simp [hzero]) rfl
      rw [ReleasesIffClaimed, and_iff_left fun h => absurd h hclaimed, hzero]
      refine (handsBack_iff Claimed Released [.fSize _, .fOpen fileOk] (.claimInterface 0) _
        (by simp [Claimed]) rfl ?_).mpr ?_
      · exact Avoids.bind _ _ _ hmoves (closeup_avoids env _ (by simp [Claimed])
          (by simp [Claimed]) (by simp [Claimed]))
      · exact transfer_releases asicidSize file env Released (fun _ hc => hc.controls)
          fun fail => ⟨.releaseInterface env.releaseInterface, by simp [closeup], _, rfl⟩
  · have havoids := fun p hfsize hfail =>
      (sendFile_not_opened asicidSize file env htaken p hfsize hfail).1
    exact hnone _ (havoids Claimed (by simp [Claimed]) (by simp [Claimed]))
      (havoids Released (by simp [Released]) (by simp [Released]))

theorem usbSend_closesHandle_iff :
    Releases HandleClosed (PeripheralUsb.sendFile asicidSize file env) ↔
      env.filesize ≤ maxSize ∧ env.fOpen = true ∧ env.claimInterface = 0 := by
  by_cases htaken : env.filesize ≤ maxSize ∧ env.fOpen = true
  · obtain ⟨hsize, hopen⟩ := htaken
    rw [sendFile_opened asicidSize file env hsize hopen,
      releases_after_iff _ _ _ (by simp [HandleClosed])]
    split
    case isTrue hclaim =>
      rw [iff_false_left (not_releases _ _ (Avoids.pure _ _) (by simp))]
      exact fun h => hclaim h.2.2
    case isFalse hclaim =>
      refine iff_of_true ?_ ⟨hsize, hopen, not_not.mp hclaim⟩
      exact transfer_releases asicidSize file env HandleClosed (fun _ hc => hc.controls)
        fun fail => ⟨.usbClose, by simp [closeup], rfl⟩
  · obtain ⟨havoids, hend⟩ := sendFile_not_opened asicidSize file env htaken HandleClosed
      (by simp [HandleClosed]) (by simp [HandleClosed])
    exact iff_of_false (not_releases _ _ havoids hend) fun h => htaken ⟨h.1, h.2.1⟩

end Pusb

/-! ### The three functions -/

/-- k_send_data closes its file unless its loop is left early, pserial's send_file unless
the size word is not accepted, pusb's unless the interface cannot be claimed. The
interface is released if and only if it was claimed; the handle is closed only where the
interface was claimed. -/
theorem downloads_release_iff (signedChar : Bool) (kermitFile : List UInt8)
    (kermit : KermitTransfer.KermitEnv) (serialFile : List UInt8)
    (serial : PeripheralSerial.SendFileEnv) (asicidSize : ℕ) (usbFile : List UInt8)
    (usb : PeripheralUsb.PusbEnv) :
    (ClosesFile (KermitTransfer.kSendData signedChar kermitFile kermit) ↔
      ¬ KeepsFile signedChar kermitFile kermit) ∧
    (ClosesFile (PeripheralSerial.sendFile serialFile serial) ↔
      ¬ (0 ≤ serial.size ∧ serial.fOpen = true ∧ wordTaken serial.sizeWrite = false)) ∧
    (ClosesFile (PeripheralUsb.sendFile asicidSize usbFile usb) ↔
      ¬ (usb.filesize ≤ PeripheralUsb.maxSize ∧ usb.fOpen = true ∧ usb.claimInterface ≠ 0)) ∧
    ReleasesIffClaimed (PeripheralUsb.sendFile asicidSize usbFile usb) ∧
    (Releases HandleClosed (PeripheralUsb.sendFile asicidSize usbFile usb) ↔
      usb.filesize ≤ PeripheralUsb.maxSize ∧ usb.fOpen = true ∧ usb.claimInterface = 0) :=
  ⟨kSendData_closesFile_iff signedChar kermitFile kermit,
    serialSend_closesFile_iff serialFile serial,
    usbSend_closesFile_iff asicidSize usbFile usb,
    usbSend_releasesIffClaimed asicidSize usbFile usb,
    usbSend_closesHandle_iff asicidSize usbFile usb⟩

/-- No target answers the packet of a one-byte file. -/
def unansweredEnv : KermitTransfer.KermitEnv where
  fSize := some 1
  fOpen := fileOk
  reads := [some 1]
  attempts := List.replicate 4 ⟨true, 0, 0, []⟩
  etxRet := 1
  fClose := fileOk

/-- s_write of the size word fails. -/
def unsentSizeEnv : PeripheralSerial.SendFileEnv where
  fSize := some 1
  fOpen := true
  sizeWrite := none
  passes := []
  fClose := true

/-- The interface is busy. -/
def unclaimedEnv : PeripheralUsb.PusbEnv where
  fSize := some 1
  fOpen := true
  claimInterface := -6
  asicId := ⟨0, 69⟩
  getAsicId := ⟨0, 4⟩
  asicIdAgain := ⟨0, 69⟩
  download := ⟨0, 4⟩
  sizeWord := ⟨0, 4⟩
  passes := []
  releaseInterface := 0
  fClose := true

theorem downloads_keep_file :
    ¬ ClosesFile (KermitTransfer.kSendData true [0x41] unansweredEnv) ∧
      ¬ ClosesFile (PeripheralSerial.sendFile [0x41] unsentSizeEnv) ∧
      ¬ ClosesFile (PeripheralUsb.sendFile 69 [0x41] unclaimedEnv) ∧
      ¬ Releases HandleClosed (PeripheralUsb.sendFile 69 [0x41] unclaimedEnv) := by
  refine ⟨?_, ?_, ?_, ?_⟩
  · rw [kSendData_closesFile_iff, not_not]
    have hbad : ¬ KermitTransfer.GoodAck 0 [] := by decide
    refine ⟨1, rfl, rfl, by decide, Or.inl ?_⟩
    simp [unansweredEnv, KermitReads.GivenUp, hbad, KermitTransfer.retryMax]
  · rw [serialSend_closesFile_iff, not_not]
    exact ⟨by decide, rfl, rfl⟩
  · rw [usbSend_closesFile_iff, not_not]
    exact ⟨by decide, rfl, by decide⟩
  · rw [usbSend_closesHandle_iff]
    intro h
    exact absurd h.2.2 (by decide)

end OmapBootUtils.DownloadReleases
