import OmapBootUtils.ConfigHandler
import OmapBootUtils.ImageCalls
import OmapBootUtils.TagWalk

/-!
tagger: the table of its settings, and its main from the configuration file on.
It writes the words of the sty file with the two magic words replaced, the tag
list, and the bytes of the zImage. Each pass of a copy loop scripts what its
fread delivers and how much its fwrite accepts.
-/
namespace OmapBootUtils.TaggerImage

open ByteMemory ScriptedRun ImageCalls ConfigHandler TagBuilder

/-! ### The settings -/

inductive TaggerObject where
  | myboard
  deriving DecidableEq, Repr

def boardMember (name member : String) (type : ℕ) : CompareMap TaggerObject :=
  ⟨name, .myboard, boardLayout.offset member, type⟩

def variableMap : List (CompareMap TaggerObject) :=
  [boardMember "board.mach_id" "mach_id" typeU32,
    boardMember "board.board_rev" "board_rev" typeU32,
    boardMember "board.bootargs" "bootargs" typeS,
    boardMember "board.ram0.start" "ram[0].start" typeU32,
    boardMember "board.ram0.size" "ram[0].size" typeU32,
    boardMember "board.ram1.start" "ram[1].start" typeU32,
    boardMember "board.ram1.size" "ram[1].size" typeU32,
    boardMember "board.fb.base" "fb.base" typeU32,
    boardMember "board.fb.size" "fb.size" typeU32,
    boardMember "board.serial.high" "serial.high" typeU32,
    boardMember "board.serial.low" "serial.low" typeU32,
    boardMember "board.sty_file" "sty_file" typeS]

/-- myboard before the configuration file is read. -/
def resetBoard (m : Objects TaggerObject) : Objects TaggerObject :=
  fun o => putBytes (m o) 0 (List.replicate boardLayout.size 0)

/-! ### The image -/

def magicMachid : UInt32 := 0xDEADBEEF
def magicInterimsize : UInt32 := 0xCAFEBEEF

/-- The switch on a word of the sty file. -/
def patchWord (machId tlen styVal : UInt32) : UInt32 :=
  if styVal = magicMachid then machId
  else if styVal = magicInterimsize then tlen
  else styVal

/-- The loop over the sty file; a short fread leaves the zeroed rest of sty_val. -/
def styLoop (machId tlen : UInt32) (len : ℕ) : List (List UInt8 × ℕ) → ℕ → Image Unit
  | [], i => if i < len / 4 then Run.block else return ()
  | (data, accepted) :: items, i =>
      if i < len / 4 then do
        Run.emit (.fread 4 (data.take 4))
        let styVal := UInt32.ofNat (leNat (data.take 4))
        Run.emit (.fwrite (u32Bytes (patchWord machId tlen styVal)) accepted)
        let i ← increment i
        styLoop machId tlen len items i
      else return ()

/-- The loop over the zImage; when fread delivers nothing, ch keeps its value. -/
def zImageLoop (len : ℕ) : List (List UInt8 × ℕ) → ℕ → UInt8 → Image Unit
  | [], i, _ => if i < len then Run.block else return ()
  | (data, accepted) :: items, i, ch =>
      if i < len then do
        Run.emit (.fread 1 (data.take 1))
        let ch := data.headD ch
        Run.emit (.fwrite [ch] accepted)
        let i ← increment i
        zImageLoop len items i ch
      else return ()

/-- The results of the calls of main after the configuration, and the bytes its
uninitialised locals happen to hold. -/
structure TaggerEnv where
  buffer : Memory
  ch : UInt8
  styOpened : Bool
  inputOpened : Bool
  outputOpened : Bool
  stySize : ℕ
  styItems : List (List UInt8 × ℕ)
  tagsAccepted : ℕ
  inputSize : ℕ
  inputItems : List (List UInt8 × ℕ)

/-- main of tagger from the opening of the sty file on. -/
def taggerBuild (b : Board) (env : TaggerEnv) : Image ℤ := do
  Run.emit (.fopenRead env.styOpened)
  if ¬ env.styOpened then return -3 else
  Run.emit (.fopenRead env.inputOpened)
  if ¬ env.inputOpened then return -3 else
  Run.emit (.fopenWrite env.outputOpened)
  if ¬ env.outputOpened then do
    Run.emit .fclose
    return 0
  else
  match generateTag env.buffer b with
  | none => Run.crash
  | some (buffer, tlen) => do
      Run.emit (.stat env.stySize)
      styLoop b.machId (UInt32.ofNat tlen) env.stySize env.styItems 0
      Run.emit .fclose
      Run.emit (.fwrite (readBytes buffer 0 tlen) env.tagsAccepted)
      Run.emit (.stat env.inputSize)
      zImageLoop env.inputSize env.inputItems 0 env.ch
      Run.emit .fclose
      Run.emit .fclose
      return 0

/-- main of tagger after its options; the status of lcfg_accept is not looked at. -/
def taggerMain (config : ConfigFile) (m : Objects TaggerObject) (env : TaggerEnv) : Image ℤ :=
  match config with
  | .absent => taggerBuild (resetBoard m .myboard) env
  | .notCreated => return -2
  | .notParsed => return -3
  | .parsed pairs => taggerBuild ((lcfgAccept variableMap pairs (resetBoard m)).2 .myboard) env

/-! ### The contents of the image -/

/-- The words of the sty file as patched, the tag list, and the zImage. -/
def imageBytes (sty : List UInt32) (machId : UInt32) (tags zImage : List UInt8) : List UInt8 :=
  (sty.map (patchWord machId (UInt32.ofNat tags.length))).flatMap u32Bytes ++ tags ++ zImage

theorem styLoop_all (machId tlen : UInt32) (words : List UInt32) (len i : ℕ)
    (hlen : i + words.length = len / 4) (hint : len / 4 < 2 ^ 31) :
    (styLoop machId tlen len (words.map fun w => (u32Bytes w, 4)) i).status = .done () ∧
      stored (styLoop machId tlen len (words.map fun w => (u32Bytes w, 4)) i).log =
        (words.map (patchWord machId tlen)).flatMap u32Bytes := by
  induction words generalizing i with
  | nil =>
    rw [List.length_nil, Nat.add_zero] at hlen
    simp [styLoop, hlen]
  | cons w words ih =>
    rw [List.length_cons] at hlen
    have hrest := ih (i + 1) (by omega)
    have htake : ∀ v, (u32Bytes v).take 4 = u32Bytes v := fun v =>
      List.take_of_length_le (by simp)
    have hlt : i < len / 4 := by omega
    simp only [List.map_cons, styLoop, hlt, if_true, Run.emit_bind, increment_eq i (by omega),
      Run.pure_bind, Run.after_after, Run.after_status, Run.after_log, htake,
      ofNat_leNat_u32Bytes]
    refine ⟨hrest.1, ?_⟩
    rw [stored_append, hrest.2]
    simp [stored, ImageCall.stored, htake]

theorem zImageLoop_all (bytes : List UInt8) (len i : ℕ) (ch : UInt8)
    (hlen : i + bytes.length = len) (hint : len < 2 ^ 31) :
    (zImageLoop len (bytes.map fun b => ([b], 1)) i ch).status = .done () ∧
      stored (zImageLoop len (bytes.map fun b => ([b], 1)) i ch).log = bytes := by
  induction bytes generalizing i ch with
  | nil =>
    rw [List.length_nil, Nat.add_zero] at hlen
    simp [zImageLoop, hlen]
  | cons b bytes ih =>
    rw [List.length_cons] at hlen
    have hrest := ih (i + 1) b (by omega)
    have hlt : i < len := by omega
    simp only [List.map_cons, zImageLoop, hlt, if_true, Run.emit_bind, List.headD_cons,
      increment_eq i (by omega), Run.pure_bind, Run.after_after, Run.after_status, Run.after_log]
    refine ⟨hrest.1, ?_⟩
    rw [stored_append, hrest.2]
    simp [stored, ImageCall.stored]

/-- The environment in which every call succeeds. -/
def completeEnv (buffer : Memory) (tlen : ℕ) (sty : List UInt32) (zImage : List UInt8) :
    TaggerEnv where
  buffer := buffer
  ch := 0
  styOpened := true
  inputOpened := true
  outputOpened := true
  stySize := 4 * sty.length
  styItems := sty.map fun w => (u32Bytes w, 4)
  tagsAccepted := tlen
  inputSize := zImage.length
  inputItems := zImage.map fun b => ([b], 1)

/-- With every call succeeding, main writes the image and returns 0. -/
theorem taggerBuild_complete (b : Board) (buffer mem : Memory) (tlen : ℕ) (sty : List UInt32)
    (zImage : List UInt8) (hgen : generateTag buffer b = some (mem, tlen))
    (hsty : sty.length < 2 ^ 31) (hzImage : zImage.length < 2 ^ 31) :
    (taggerBuild b (completeEnv buffer tlen sty zImage)).status = .done 0 ∧
      stored (taggerBuild b (completeEnv buffer tlen sty zImage)).log =
        imageBytes sty b.machId (readBytes mem 0 tlen) zImage := by
  obtain ⟨hstyDone, hstyStored⟩ := styLoop_all b.machId (UInt32.ofNat tlen) sty (4 * sty.length) 0
    (by omega) (by omega)
  obtain ⟨hzDone, hzStored⟩ := zImageLoop_all zImage zImage.length 0 0 (by omega) hzImage
  simp only [taggerBuild, completeEnv, not_true_eq_false, if_false, hgen, Run.emit_bind,
    Run.bind_of_done _ _ () hstyDone, Run.bind_of_done _ _ () hzDone, Run.after_after,
    Run.after_status, Run.after_log, stored_append, hstyStored, hzStored]
  refine ⟨rfl, ?_⟩
  have htags : (readBytes mem 0 tlen).take tlen = readBytes mem 0 tlen :=
    List.take_of_length_le (by simp)
  simp [stored, ImageCall.stored, imageBytes, htags]

end OmapBootUtils.TaggerImage
