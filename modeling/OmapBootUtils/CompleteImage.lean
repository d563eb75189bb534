import OmapBootUtils.CopyLoops
import OmapBootUtils.TagBuffer
import OmapBootUtils.ChHeader

/-!
What status 0 of the image builders says about the output file. A complete image
is made of the bytes the freads deliver and of what main generates, piece by
piece. Neither main looks at the result of stat, fread or fwrite, and an output
file that cannot be opened ends both with status 0.
-/
namespace OmapBootUtils.CompleteImage

open ByteMemory ScriptedRun ImageCalls ConfigHandler ChSections ChHeader TagBuilder TagBuffer
open GpsignImage TaggerImage CopyLoops

/-! ### gpsign -/

/-- The variables main goes on with, if it gets past the configuration file. -/
def gpsignSettings (m : Objects GpsignObject) : ConfigFile → Option (Objects GpsignObject)
  | .absent => some (resetObjects m)
  | .notCreated => none
  | .notParsed => none
  | .parsed pairs => some (lcfgAccept GpsignImage.variableMap pairs (resetObjects m)).2

theorem gpsignMain_eq (opts : GpsignOptions) (config : ConfigFile) (m objs : Objects GpsignObject)
    (env : GpsignEnv) (h : gpsignSettings m config = some objs) :
    gpsignMain opts config m env = gpsignBuild opts objs env := by
  cases config with
  | absent =>
    rw [gpsignSettings, Option.some.injEq] at h
    rw [gpsignMain, h]
  | parsed pairs =>
    rw [gpsignSettings, Option.some.injEq] at h
    rw [gpsignMain, h]
  | notCreated => cases h
  | notParsed => cases h

theorem gpsignMain_failed (opts : GpsignOptions) (config : ConfigFile) (m : Objects GpsignObject)
    (env : GpsignEnv) (h : gpsignSettings m config = none) :
    (gpsignMain opts config m env).status ≠ .done 0 := by
  cases config with
  | absent => cases h
  | parsed pairs => cases h
  | notCreated => simp [gpsignMain]
  | notParsed => simp [gpsignMain]

/-- The configuration header, if fillup_ch makes one. -/
def headerPieces (p : Platform) (chBuffer : Memory) : List (List UInt8) :=
  match fillupCh p chBuffer with
  | some (ch, 0) => [readBytes ch 0 chBufferSize]
  | _ => []

/-- The header, the size, the load address, and the input with its padding. -/
def gpsignPieces (opts : GpsignOptions) (objs : Objects GpsignObject) (chBuffer : Memory)
    (input : List UInt8) : List (List UInt8) :=
  headerPieces (platformOf objs) chBuffer ++
    leBytes 4 input.length :: u32Bytes (loadaddrOf opts objs) :: inputPieces opts 0 input

/-- The output was opened, every byte of the input was read, and what was written is
the image and nothing else. -/
structure CompleteGpsign (opts : GpsignOptions) (objs : Objects GpsignObject) (chBuffer : Memory)
    (input : List UInt8) (log : List ImageCall) : Prop where
  opened : .fopenWrite true ∈ log
  delivered : reads 1 log = input.map ([·])
  written : writes log = gpsignPieces opts objs chBuffer input

theorem CompleteGpsign.contents {opts : GpsignOptions} {objs : Objects GpsignObject}
    {chBuffer : Memory} {input : List UInt8} {log : List ImageCall}
    (h : CompleteGpsign opts objs chBuffer input log) :
    stored log = (gpsignPieces opts objs chBuffer input).flatten := by
  rw [stored_eq_writes, h.written]

/-- stat reported the length of the input, every fread delivered its byte, and every
fwrite took the whole of its piece. -/
structure GpsignCopies (opts : GpsignOptions) (objs : Objects GpsignObject) (env : GpsignEnv)
    (input : List UInt8) : Prop where
  size : env.inputSize = input.length
  passes : ∀ k pass, env.passes[k]? = some pass → k < env.inputSize → PassCopies opts k pass
  header : (settingsSection (platformOf objs)).valid ≠ 0 → chBufferSize ≤ env.headerAccepted
  sizeWord : 4 ≤ env.sizeAccepted
  loadaddr : 4 ≤ env.loadaddrAccepted

/-- There is a pass for each byte stat reports, and the freads deliver the bytes of the
input from its beginning. -/
structure GpsignCalls (env : GpsignEnv) (input : List UInt8) : Prop where
  scripted : env.inputSize ≤ env.passes.length
  delivered : (env.passes.take env.inputSize).flatMap (fun pass => pass.data.take 1) <+: input

section Gpsign

variable (opts : GpsignOptions) (objs : Objects GpsignObject) (env : GpsignEnv)

def headerCalls (p : Platform) (env : GpsignEnv) : List ImageCall :=
  (headerPieces p env.chBuffer).map (.fwrite · env.headerAccepted)

/-- The calls up to the first byte of the input. -/
def leadingCalls : List ImageCall :=
  [.fopenRead true, .stat env.inputSize, .fopenWrite true] ++
    headerCalls (platformOf objs) env ++
      [.fwrite (leBytes 4 env.inputSize) env.sizeAccepted,
        .fwrite (u32Bytes (loadaddrOf opts objs)) env.loadaddrAccepted]

theorem headerPieces_of_valid (p : Platform) (chBuffer : Memory)
    (h : (settingsSection p).valid ≠ 0) : ∃ ch, fillupCh p chBuffer = some (ch, 0) ∧
      headerPieces p chBuffer = [readBytes ch 0 chBufferSize] := by
  obtain ⟨ch, hch, _⟩ := fillupCh_header p chBuffer h
  exact ⟨ch, hch, by simp only [headerPieces, hch]⟩

theorem headerPieces_of_invalid (p : Platform) (chBuffer : Memory)
    (h : (settingsSection p).valid = 0) : headerPieces p chBuffer = [] := by
  rw [headerPieces, fillupCh, if_pos h]
  rfl

theorem writes_headerCalls (p : Platform) :
    writes (headerCalls p env) =
      (headerPieces p env.chBuffer).map (List.take env.headerAccepted) := by
  rw [headerCalls]
  induction headerPieces p env.chBuffer with
  | nil => rfl
  | cons piece pieces ih => simp [ih, ImageCall.written]

theorem headerCalls_copies_iff (p : Platform) :
    writes (headerCalls p env) = headerPieces p env.chBuffer ↔
      ((settingsSection p).valid ≠ 0 → chBufferSize ≤ env.headerAccepted) := by
  rw [writes_headerCalls]
  by_cases h : (settingsSection p).valid = 0
  · simp [headerPieces_of_invalid p env.chBuffer h, h]
  · obtain ⟨ch, _, hpieces⟩ := headerPieces_of_valid p env.chBuffer h
    simp [hpieces, h]

theorem reads_headerCalls (p : Platform) (size : ℕ) : reads size (headerCalls p env) = [] := by
  rw [headerCalls]
  induction headerPieces p env.chBuffer with
  | nil => rfl
  | cons piece pieces ih => simp [ih, ImageCall.delivered]

/-- main with both files open: the leading calls, the loop, and the end. -/
theorem gpsignBuild_opened (hinput : env.inputOpened = true) (houtput : env.outputOpened = true) :
    gpsignBuild opts objs env = Run.after (leadingCalls opts objs env) (do
      inputLoop opts env.inputSize env.passes 0 env.ch
      Run.emit .fclose
      Run.emit .fclose
      return 0) := by
  rw [gpsignBuild, hinput, houtput]
  by_cases h : (settingsSection (platformOf objs)).valid = 0
  · rw [fillupCh, if_pos h, leadingCalls, headerCalls, headerPieces_of_invalid _ _ h]
    simp
  · obtain ⟨ch, hfill, hpieces⟩ := headerPieces_of_valid _ env.chBuffer h
    rw [hfill, leadingCalls, headerCalls, hpieces]
    simp

/-- Pieces before the input are written where pieces are due. -/
theorem writes_leadingCalls :
    writes (leadingCalls opts objs env) = writes (headerCalls (platformOf objs) env) ++
      [(leBytes 4 env.inputSize).take env.sizeAccepted,
        (u32Bytes (loadaddrOf opts objs)).take env.loadaddrAccepted] := by
  simp [leadingCalls, ImageCall.written]

theorem leadingCalls_copies_iff (input : List UInt8) (rest : List (List UInt8)) :
    writes (leadingCalls opts objs env) ++ rest = gpsignPieces opts objs env.chBuffer input ↔
      ((settingsSection (platformOf objs)).valid ≠ 0 → chBufferSize ≤ env.headerAccepted) ∧
        (leBytes 4 env.inputSize).take env.sizeAccepted = leBytes 4 input.length ∧
        4 ≤ env.loadaddrAccepted ∧ rest = inputPieces opts 0 input := by
  have hlength : (writes (headerCalls (platformOf objs) env)).length =
      (headerPieces (platformOf objs) env.chBuffer).length := by
    rw [writes_headerCalls, List.length_map]
  rw [writes_leadingCalls, gpsignPieces, List.append_assoc,
    List.append_eq_append_iff_of_size_eq_left hlength, headerCalls_copies_iff]
  simp only [List.cons_append, List.nil_append, List.cons.injEq, List.take_eq_self_iff,
    u32Bytes_length]

theorem reads_leadingCalls (size : ℕ) : reads size (leadingCalls opts objs env) = [] := by
  simp [leadingCalls, reads_headerCalls, ImageCall.delivered]

/-- With both files open, the image is complete exactly if the calls copy it. -/
theorem gpsignBuild_complete_iff (input : List UInt8) (hinput : env.inputOpened = true)
    (houtput : env.outputOpened = true) (hint : env.inputSize < 2 ^ 31)
    (hcalls : GpsignCalls env input) :
    (gpsignBuild opts objs env).status = .done 0 ∧
      (CompleteGpsign opts objs env.chBuffer input (gpsignBuild opts objs env).log ↔
        GpsignCopies opts objs env input) := by
  have hstatus := inputLoop_status opts env.inputSize env.passes 0 env.ch hint
    (by have := hcalls.scripted; omega)
  have hloop := inputLoop_copies_iff opts env.inputSize env.passes 0 env.ch input hint
    (by have := hcalls.scripted; omega) hcalls.delivered
  simp only [Nat.zero_add, Nat.sub_zero] at hloop
  rw [gpsignBuild_opened opts objs env hinput houtput, Run.bind_of_done _ _ () hstatus]
  generalize inputLoop opts env.inputSize env.passes 0 env.ch = loop at hloop
  have hreads : reads 1 (leadingCalls opts objs env ++ (loop.log ++ [.fclose, .fclose])) =
      reads 1 loop.log := by
    simp [reads_leadingCalls, ImageCall.delivered]
  have hwrites : writes (leadingCalls opts objs env ++ (loop.log ++ [.fclose, .fclose])) =
      writes (leadingCalls opts objs env) ++ writes loop.log := by
    simp [ImageCall.written]
  have hsize : (leBytes 4 env.inputSize).take env.sizeAccepted = leBytes 4 env.inputSize ↔
      4 ≤ env.sizeAccepted := by
    rw [List.take_eq_self_iff, leBytes_length]
  have hleading := leadingCalls_copies_iff opts objs env input (writes loop.log)
  refine ⟨rfl, fun hcomplete => ?_, fun hcopies => ?_⟩
  · obtain ⟨hheader, hsizeWord, hloadaddr, hrest⟩ :=
      hleading.mp (hwrites.symm.trans hcomplete.written)
    obtain ⟨hlen, hpasses⟩ := hloop.mp ⟨hreads.symm.trans hcomplete.delivered, hrest⟩
    rw [← hlen] at hsizeWord
    exact ⟨hlen, hpasses, hheader, hsize.mp hsizeWord, hloadaddr⟩
  · obtain ⟨hdel, hrest⟩ := hloop.mpr ⟨hcopies.size, hcopies.passes⟩
    have hsizeWord := hsize.mpr hcopies.sizeWord
    rw [hcopies.size] at hsizeWord
    refine ⟨by simp [leadingCalls], hreads.trans hdel, hwrites.trans ?_⟩
    exact hleading.mpr ⟨hcopies.header, by rw [hcopies.size, hsizeWord], hcopies.loadaddr, hrest⟩

/-- A main that returns 0 has opened its files, or not the output. -/
theorem gpsignBuild_unopened (hinput : env.inputOpened = true)
    (houtput : env.outputOpened = false) :
    gpsignBuild opts objs env =
      Run.after [.fopenRead true, .stat env.inputSize, .fopenWrite false, .fclose] (pure 0) := by
  rw [gpsignBuild, hinput, houtput]
  simp

theorem gpsignBuild_overflow (hinput : env.inputOpened = true) (houtput : env.outputOpened = true)
    (hint : 2 ^ 31 ≤ env.inputSize) : (gpsignBuild opts objs env).status ≠ .done 0 := by
  intro hdone
  rw [gpsignBuild_opened opts objs env hinput houtput, Run.after_status, Run.bind_done_iff] at hdone
  obtain ⟨_, hloop, _⟩ := hdone
  exact inputLoop_overflow opts env.inputSize env.passes 0 env.ch hint (by omega) hloop

/-- Status 0 of main means a complete image exactly if the input cannot be opened, or
the output can and the calls copy the input, unless it is too large for the counter. -/
theorem gpsignBuild_honest_iff (input : List UInt8)
    (hcalls : GpsignCalls env input) :
    ((gpsignBuild opts objs env).status = .done 0 →
        CompleteGpsign opts objs env.chBuffer input (gpsignBuild opts objs env).log) ↔
      env.inputOpened = false ∨ env.outputOpened = true ∧
        (2 ^ 31 ≤ env.inputSize ∨ GpsignCopies opts objs env input) := by
  cases hinput : env.inputOpened with
  | false => simp [gpsignBuild, hinput]
  | true =>
    cases houtput : env.outputOpened with
    | false =>
      rw [gpsignBuild_unopened opts objs env hinput houtput]
      refine iff_of_false (fun h => ?_) (by simp)
      have := (h rfl).opened
      simp at this
    | true =>
      by_cases hint : env.inputSize < 2 ^ 31
      · obtain ⟨hdone, hcomplete⟩ := gpsignBuild_complete_iff opts objs env input hinput houtput
          hint hcalls
        have hno : ¬ 2 ^ 31 ≤ env.inputSize := Nat.not_le.mpr hint
        simp only [hdone, hcomplete, hno, forall_const, Bool.true_eq_false, false_or, true_and]
      · have hover := gpsignBuild_overflow opts objs env hinput houtput (by omega)
        exact iff_of_true (fun h => absurd h hover) (Or.inr ⟨rfl, Or.inl (Nat.not_lt.mp hint)⟩)

end Gpsign

/-! ### tagger -/

/-- The board main goes on with, if it gets past the configuration file. -/
def taggerSettings (m : Objects TaggerObject) : ConfigFile → Option Board
  | .absent => some (resetBoard m .myboard)
  | .notCreated => none
  | .notParsed => none
  | .parsed pairs => some ((lcfgAccept TaggerImage.variableMap pairs (resetBoard m)).2 .myboard)

theorem taggerMain_eq (config : ConfigFile) (m : Objects TaggerObject) (b : Board)
    (env : TaggerEnv) (h : taggerSettings m config = some b) :
    taggerMain config m env = taggerBuild b env := by
  cases config with
  | absent =>
    rw [taggerSettings, Option.some.injEq] at h
    rw [taggerMain, h]
  | parsed pairs =>
    rw [taggerSettings, Option.some.injEq] at h
    rw [taggerMain, h]
  | notCreated => cases h
  | notParsed => cases h

theorem taggerMain_failed (config : ConfigFile) (m : Objects TaggerObject) (env : TaggerEnv)
    (h : taggerSettings m config = none) : (taggerMain config m env).status ≠ .done 0 := by
  cases config with
  | absent => cases h
  | parsed pairs => cases h
  | notCreated => simp [taggerMain]
  | notParsed => simp [taggerMain]

/-- The patched words of the sty file, the tag list, and the zImage. -/
def taggerPieces (b : Board) (words : List UInt32) (tags zImage : List UInt8) :
    List (List UInt8) :=
  words.map (patchedBytes b.machId (UInt32.ofNat tags.length)) ++ tags :: zImage.map ([·])

/-- The output was opened, every byte of both inputs was read, and what was written is
the image and nothing else. -/
def CompleteTagger (b : Board) (buffer : Memory) (sty zImage : List UInt8)
    (log : List ImageCall) : Prop :=
  .fopenWrite true ∈ log ∧ reads 1 log = zImage.map ([·]) ∧
    ∃ out length words, generateTag buffer b = some (out, length) ∧
      sty = words.flatMap u32Bytes ∧ reads 4 log = words.map u32Bytes ∧
        writes log = taggerPieces b words (readBytes out 0 length) zImage

theorem CompleteTagger.contents {b : Board} {buffer : Memory} {sty zImage : List UInt8}
    {log : List ImageCall} (h : CompleteTagger b buffer sty zImage log) :
    ∃ out length words, generateTag buffer b = some (out, length) ∧
      sty = words.flatMap u32Bytes ∧
        stored log = (taggerPieces b words (readBytes out 0 length) zImage).flatten := by
  obtain ⟨_, _, out, length, words, hgen, hwords, _, hwritten⟩ := h
  exact ⟨out, length, words, hgen, hwords, by rw [stored_eq_writes, hwritten]⟩

/-- stat reported the lengths of both inputs, every fread delivered its item, and every
fwrite took the whole of its piece. -/
structure TaggerCopies (b : Board) (env : TaggerEnv) (sty zImage : List UInt8) : Prop where
  stySize : 4 * (env.stySize / 4) = sty.length
  words : ∀ k item, env.styItems[k]? = some item → k < env.stySize / 4 → WordCopies item
  tags : ∀ commandline, b.bootargs = some commandline → listBytes b commandline ≤ env.tagsAccepted
  inputSize : env.inputSize = zImage.length
  bytes : ∀ k item, env.inputItems[k]? = some item → k < env.inputSize → item.1 ≠ [] ∧ 1 ≤ item.2

/-- The command line ends inside the board and the tags fit the buffer of main. -/
def TagsFit (b : Board) : Prop :=
  ∃ commandline, b.bootargs = some commandline ∧ listBytes b commandline ≤ bufferSize

/-- There is a pass for each item stat calls for, and the freads deliver the bytes of
both inputs from their beginning. -/
structure TaggerCalls (env : TaggerEnv) (sty zImage : List UInt8) : Prop where
  styScripted : env.stySize / 4 ≤ env.styItems.length
  styDelivered : (env.styItems.take (env.stySize / 4)).flatMap (fun item => item.1.take 4) <+: sty
  zImageScripted : env.inputSize ≤ env.inputItems.length
  zImageDelivered : (env.inputItems.take env.inputSize).flatMap (fun item => item.1.take 1) <+:
    zImage

section Tagger

variable (b : Board) (env : TaggerEnv)

/-- Every file is open and the tag list is built. -/
structure Opened (out : Memory) (length : ℕ) : Prop where
  sty : env.styOpened = true
  input : env.inputOpened = true
  output : env.outputOpened = true
  tags : generateTag env.buffer b = some (out, length)

/-- main with all files open: the sty file, the tag list, and the zImage. -/
theorem taggerBuild_opened (out : Memory) (length : ℕ) (h : Opened b env out length) :
    taggerBuild b env =
      Run.after [.fopenRead true, .fopenRead true, .fopenWrite true, .stat env.stySize] (do
        styLoop b.machId (UInt32.ofNat length) env.stySize env.styItems 0
        Run.emit .fclose
        Run.emit (.fwrite (readBytes out 0 length) env.tagsAccepted)
        Run.emit (.stat env.inputSize)
        zImageLoop env.inputSize env.inputItems 0 env.ch
        Run.emit .fclose
        Run.emit .fclose
        return 0) := by
  rw [taggerBuild, h.sty, h.input, h.output, h.tags]
  simp

/-- The calls of main around those of its two loops. -/
def openedCalls (tags : List UInt8) (styLog zImageLog : List ImageCall) : List ImageCall :=
  [.fopenRead true, .fopenRead true, .fopenWrite true, .stat env.stySize] ++ styLog ++
    [.fclose, .fwrite tags env.tagsAccepted, .stat env.inputSize] ++ zImageLog ++ [.fclose, .fclose]

theorem reads_openedCalls (size : ℕ) (tags : List UInt8) (styLog zImageLog : List ImageCall) :
    reads size (openedCalls env tags styLog zImageLog) =
      reads size styLog ++ reads size zImageLog := by
  simp [openedCalls, ImageCall.delivered]

theorem writes_openedCalls (tags : List UInt8) (styLog zImageLog : List ImageCall) :
    writes (openedCalls env tags styLog zImageLog) =
      writes styLog ++ tags.take env.tagsAccepted :: writes zImageLog := by
  simp [openedCalls, ImageCall.written]

theorem taggerBuild_done (out : Memory) (length : ℕ) (h : Opened b env out length)
    (hsty : (styLoop b.machId (UInt32.ofNat length) env.stySize env.styItems 0).status = .done ())
    (hzImage : (zImageLoop env.inputSize env.inputItems 0 env.ch).status = .done ()) :
    taggerBuild b env =
      Run.after (openedCalls env (readBytes out 0 length)
          (styLoop b.machId (UInt32.ofNat length) env.stySize env.styItems 0).log
          (zImageLoop env.inputSize env.inputItems 0 env.ch).log) (pure 0) := by
  rw [taggerBuild_opened b env out length h, Run.bind_of_done _ _ () hsty]
  simp [Run.bind_of_done _ _ () hzImage, openedCalls]

/-- With all files open, the image is complete exactly if the calls copy it. -/
theorem taggerBuild_complete_iff (out : Memory) (length : ℕ) (sty zImage : List UInt8)
    (hopened : Opened b env out length)
    (hstyInt : env.stySize / 4 < 2 ^ 31) (hinputInt : env.inputSize < 2 ^ 31)
    (hcalls : TaggerCalls env sty zImage) :
    (taggerBuild b env).status = .done 0 ∧
      (CompleteTagger b env.buffer sty zImage (taggerBuild b env).log ↔
        TaggerCopies b env sty zImage) := by
  have hstyDone := styLoop_status b.machId (UInt32.ofNat length) env.stySize env.styItems 0 hstyInt
    (by have := hcalls.styScripted; omega)
  have hstyCopies := styLoop_copies_iff b.machId (UInt32.ofNat length) env.stySize env.styItems 0
    sty hstyInt (by have := hcalls.styScripted; omega) hcalls.styDelivered
  obtain ⟨hbalanced, hstyOne⟩ := styLoop_reads b.machId (UInt32.ofNat length) env.stySize
    env.styItems 0 hstyInt
  have hzDone := zImageLoop_status env.inputSize env.inputItems env.ch hinputInt
    hcalls.zImageScripted
  have hzCopies := zImageLoop_copies_iff env.inputSize env.inputItems env.ch zImage hinputInt
    hcalls.zImageScripted hcalls.zImageDelivered
  have hzFour := zImageLoop_reads env.inputSize env.inputItems env.ch hinputInt
  simp only [Nat.zero_add, Nat.sub_zero] at hstyCopies
  rw [taggerBuild_done b env out length hopened hstyDone hzDone]
  generalize styLoop b.machId (UInt32.ofNat length) env.stySize env.styItems 0 = loop at *
  generalize zImageLoop env.inputSize env.inputItems 0 env.ch = zLoop at *
  have htags : (readBytes out 0 length).take env.tagsAccepted = readBytes out 0 length ↔
      length ≤ env.tagsAccepted := by
    rw [List.take_eq_self_iff, readBytes_length]
  obtain ⟨commandline, hargs, hlength, _⟩ :=
    (generateTag_some_iff b env.buffer length).mp ⟨out, hopened.tags⟩
  refine ⟨rfl, ?_⟩
  rw [Run.after_log, Run.pure_log, List.append_nil, CompleteTagger, reads_openedCalls,
    reads_openedCalls, writes_openedCalls, hstyOne, hzFour, List.nil_append, List.append_nil]
  constructor
  · rintro ⟨_, hone, out', length', words, hgen, hwords, hfour, hwritten⟩
    obtain ⟨rfl, rfl⟩ : out = out' ∧ length = length' := by
      simpa using hopened.tags.symm.trans hgen
    have hcount : (writes loop.log).length =
        (words.map (patchedBytes b.machId (UInt32.ofNat length))).length := by
      rw [← hbalanced, hfour, List.length_map, List.length_map]
    rw [taggerPieces, readBytes_length, List.append_eq_append_iff_of_size_eq_left hcount,
      List.cons.injEq] at hwritten
    obtain ⟨hstySize, hwordsCopied⟩ := hstyCopies.mp ⟨words, hwords, hfour, hwritten.1⟩
    obtain ⟨hinputSize, hbytes⟩ := hzCopies.mp ⟨hone, hwritten.2.2⟩
    refine ⟨hstySize, hwordsCopied, fun other hother => ?_, hinputSize, hbytes⟩
    obtain rfl := Option.some.inj (hargs.symm.trans hother)
    rw [← hlength]
    exact htags.mp hwritten.2.1
  · intro hcopies
    obtain ⟨words, hwords, hfour, hwritten⟩ := hstyCopies.mpr ⟨hcopies.stySize, hcopies.words⟩
    obtain ⟨hone, hzWritten⟩ := hzCopies.mpr ⟨hcopies.inputSize, hcopies.bytes⟩
    have htagsAll := htags.mpr (hlength ▸ hcopies.tags commandline hargs)
    refine ⟨by simp [openedCalls], hone, out, length, words, hopened.tags, hwords, hfour, ?_⟩
    rw [hwritten, hzWritten, htagsAll, taggerPieces, readBytes_length]

theorem taggerBuild_overflow (out : Memory) (length : ℕ) (hopened : Opened b env out length)
    (hint : 2 ^ 31 ≤ env.stySize / 4 ∨ 2 ^ 31 ≤ env.inputSize) :
    (taggerBuild b env).status ≠ .done 0 := by
  intro hdone
  rw [taggerBuild_opened b env out length hopened, Run.after_status, Run.bind_done_iff] at hdone
  obtain ⟨_, hstyDone, hdone⟩ := hdone
  simp only [Run.emit_bind, Run.after_status, Run.bind_done_iff] at hdone
  obtain ⟨_, hzDone, _⟩ := hdone
  rcases hint with hsty | hinput
  · exact styLoop_overflow _ _ env.stySize env.styItems 0 hsty (by omega) hstyDone
  · exact zImageLoop_overflow env.inputSize env.inputItems env.ch hinput hzDone

/-- Status 0 of main means a complete image exactly if an input cannot be opened, or the
output can and the calls copy the inputs, unless the run is undefined before its end. -/
theorem taggerBuild_honest_iff (sty zImage : List UInt8)
    (hcalls : TaggerCalls env sty zImage) :
    ((taggerBuild b env).status = .done 0 →
        CompleteTagger b env.buffer sty zImage (taggerBuild b env).log) ↔
      env.styOpened = false ∨ env.inputOpened = false ∨ env.outputOpened = true ∧
        (¬ TagsFit b ∨ 2 ^ 31 ≤ env.stySize / 4 ∨ 2 ^ 31 ≤ env.inputSize ∨
          TaggerCopies b env sty zImage) := by
  cases hstyOpened : env.styOpened with
  | false => simp [taggerBuild, hstyOpened]
  | true =>
  cases hinputOpened : env.inputOpened with
  | false => simp [taggerBuild, hstyOpened, hinputOpened]
  | true =>
  cases houtput : env.outputOpened with
  | false =>
    refine iff_of_false (fun h => ?_) (by simp)
    simp [taggerBuild, hstyOpened, hinputOpened, houtput, CompleteTagger] at h
  | true =>
  simp only [Bool.true_eq_false, false_or, true_and]
  by_cases hfit : TagsFit b
  · obtain ⟨commandline, hargs, hle⟩ := hfit
    obtain ⟨out, hgen⟩ := (generateTag_some_iff b env.buffer _).mpr ⟨commandline, hargs, rfl, hle⟩
    have hopened : Opened b env out _ := ⟨hstyOpened, hinputOpened, houtput, hgen⟩
    by_cases hint : 2 ^ 31 ≤ env.stySize / 4 ∨ 2 ^ 31 ≤ env.inputSize
    · apply iff_of_true (fun h => absurd h (taggerBuild_overflow b env out _ hopened hint))
      exact Or.inr (or_assoc.mp (Or.inl hint))
    · rw [not_or, Nat.not_le, Nat.not_le] at hint
      obtain ⟨hdone, hcomplete⟩ := taggerBuild_complete_iff b env out _ sty zImage hopened hint.1
        hint.2 hcalls
      have hfit : TagsFit b := ⟨commandline, hargs, hle⟩
      simp only [hdone, hcomplete, hfit, Nat.not_le.mpr hint.1, Nat.not_le.mpr hint.2,
        forall_const, not_true_eq_false, false_or]
  · have hnone : generateTag env.buffer b = none := by
      rw [Option.eq_none_iff_forall_not_mem]
      rintro ⟨out, length⟩ hgen
      obtain ⟨commandline, hargs, rfl, hle⟩ :=
        (generateTag_some_iff b env.buffer length).mp ⟨out, hgen⟩
      exact hfit ⟨commandline, hargs, hle⟩
    refine iff_of_true (fun h => ?_) (Or.inl hfit)
    simp [taggerBuild, hstyOpened, hinputOpened, houtput, hnone] at h

end Tagger

/-! ### Status 0 -/

/-- Status 0 means a complete image exactly if the files that are read cannot be opened,
or the output can and stat reports their lengths, every fread delivers its item and
every fwrite takes its piece, unless the run is undefined before its end. -/
theorem status_zero_complete_iff (opts : GpsignOptions) (config : ConfigFile)
    (m : Objects GpsignObject) (env : GpsignEnv) (input : List UInt8)
    (hcalls : GpsignCalls env input) (taggerConfig : ConfigFile) (board : Objects TaggerObject)
    (taggerEnv : TaggerEnv) (sty zImage : List UInt8)
    (htaggerCalls : TaggerCalls taggerEnv sty zImage) :
    (((gpsignMain opts config m env).status = .done 0 →
        ∃ objs, gpsignSettings m config = some objs ∧
          CompleteGpsign opts objs env.chBuffer input (gpsignMain opts config m env).log) ↔
      ∀ objs, gpsignSettings m config = some objs →
        env.inputOpened = false ∨ env.outputOpened = true ∧
          (2 ^ 31 ≤ env.inputSize ∨ GpsignCopies opts objs env input)) ∧
    (((taggerMain taggerConfig board taggerEnv).status = .done 0 →
        ∃ b, taggerSettings board taggerConfig = some b ∧
          CompleteTagger b taggerEnv.buffer sty zImage
            (taggerMain taggerConfig board taggerEnv).log) ↔
      ∀ b, taggerSettings board taggerConfig = some b →
        taggerEnv.styOpened = false ∨ taggerEnv.inputOpened = false ∨
          taggerEnv.outputOpened = true ∧
            (¬ TagsFit b ∨ 2 ^ 31 ≤ taggerEnv.stySize / 4 ∨ 2 ^ 31 ≤ taggerEnv.inputSize ∨
              TaggerCopies b taggerEnv sty zImage)) := by
  constructor
  · cases hsettings : gpsignSettings m config with
    | none => simp [gpsignMain_failed opts config m env hsettings]
    | some objs =>
      rw [gpsignMain_eq opts config m objs env hsettings]
      simpa using gpsignBuild_honest_iff opts objs env input hcalls
  · cases hsettings : taggerSettings board taggerConfig with
    | none => simp [taggerMain_failed taggerConfig board taggerEnv hsettings]
    | some b =>
      rw [taggerMain_eq taggerConfig board b taggerEnv hsettings]
      simpa using taggerBuild_honest_iff b taggerEnv sty zImage htaggerCalls

/-- gpsign on a file of three bytes, every call of which succeeds. -/
def threeByteEnv : GpsignEnv :=
  ⟨fun _ => 0, 0, true, 3, true, 512, 4, 4,
    [⟨[0x41], 2048, 1⟩, ⟨[0x42], 2048, 1⟩, ⟨[0x43], 2048, 1⟩]⟩

/-- tagger on a sty file of two words and a zImage of two bytes, every call of which succeeds. -/
def twoWordEnv : TaggerEnv :=
  ⟨fun _ => 0, 0, true, true, true, 8,
    [([0xEF, 0xBE, 0xAD, 0xDE], 4), ([0x01, 0x00, 0xA0, 0xE3], 4)], 1024, 2,
    [([0x41], 1), ([0x42], 1)]⟩

theorem status_zero_complete_copied :
    ((gpsignMain ⟨0xFFFFFFFF, true⟩ .absent (fun _ _ => 0) threeByteEnv).status = .done 0 →
      ∃ objs, gpsignSettings (fun _ _ => 0) .absent = some objs ∧
        CompleteGpsign ⟨0xFFFFFFFF, true⟩ objs threeByteEnv.chBuffer [0x41, 0x42, 0x43]
          (gpsignMain ⟨0xFFFFFFFF, true⟩ .absent (fun _ _ => 0) threeByteEnv).log) ∧
    ((taggerMain .absent (fun _ _ => 0) twoWordEnv).status = .done 0 →
      ∃ b, taggerSettings (fun _ _ => 0) .absent = some b ∧
        CompleteTagger b twoWordEnv.buffer [0xEF, 0xBE, 0xAD, 0xDE, 0x01, 0x00, 0xA0, 0xE3]
          [0x41, 0x42] (taggerMain .absent (fun _ _ => 0) twoWordEnv).log) := by
  obtain ⟨hgpsign, htagger⟩ := status_zero_complete_iff ⟨0xFFFFFFFF, true⟩ .absent (fun _ _ => 0)
    threeByteEnv [0x41, 0x42, 0x43] ⟨by decide, by decide⟩ .absent (fun _ _ => 0) twoWordEnv
    [0xEF, 0xBE, 0xAD, 0xDE, 0x01, 0x00, 0xA0, 0xE3] [0x41, 0x42]
    ⟨by decide, by decide, by decide, by decide⟩
  refine ⟨hgpsign.mpr fun objs _ => ?_, htagger.mpr fun b _ => ?_⟩
  · refine Or.inr ⟨rfl, Or.inr ⟨rfl, fun k pass hk _ => ?_, fun _ => Nat.le_refl 512,
      Nat.le_refl 4, Nat.le_refl 4⟩⟩
    have hpass := List.mem_of_getElem? hk
    simp only [threeByteEnv, List.mem_cons, List.not_mem_nil, or_false] at hpass
    rcases hpass with rfl | rfl | rfl <;>
      exact ⟨by simp, Nat.le_refl 1, fun _ => Nat.le_refl 2048⟩
  · refine Or.inr (Or.inr ⟨rfl, ?_⟩)
    by_cases hfit : TagsFit b
    · refine Or.inr (Or.inr (Or.inr ⟨rfl, fun k item hk _ => ?_, fun commandline hargs => ?_, rfl,
        fun k item hk _ => ?_⟩))
      · have hitem := List.mem_of_getElem? hk
        simp only [twoWordEnv, List.mem_cons, List.not_mem_nil, or_false] at hitem
        rcases hitem with rfl | rfl <;> exact ⟨by decide, by decide⟩
      · obtain ⟨other, hother, hle⟩ := hfit
        obtain rfl := Option.some.inj (hargs.symm.trans hother)
        exact hle
      · have hitem := List.mem_of_getElem? hk
        simp only [twoWordEnv, List.mem_cons, List.not_mem_nil, or_false] at hitem
        rcases hitem with rfl | rfl <;> exact ⟨by simp, Nat.le_refl 1⟩
    · exact Or.inl hfit

/-- An input of three bytes, and an output file that cannot be opened. -/
theorem status_zero_without_output :
    ¬ ∀ opts config m env input, GpsignCalls env input →
      (gpsignMain opts config m env).status = .done 0 →
        ∃ objs, gpsignSettings m config = some objs ∧
          CompleteGpsign opts objs env.chBuffer input (gpsignMain opts config m env).log := by
  intro h
  have hbuild := gpsignBuild_unopened ⟨0xFFFFFFFF, false⟩ (resetObjects fun _ _ => 0)
    { threeByteEnv with outputOpened := false } rfl rfl
  rw [← gpsignMain_eq _ .absent (fun _ _ => 0) _ _ rfl] at hbuild
  obtain ⟨objs, _, hcomplete⟩ := h ⟨0xFFFFFFFF, false⟩ .absent (fun _ _ => 0)
    { threeByteEnv with outputOpened := false } [0x41, 0x42, 0x43] ⟨by decide, by decide⟩
    (by rw [hbuild]; rfl)
  have hopened := hcomplete.opened
  rw [hbuild] at hopened
  simp at hopened

end OmapBootUtils.CompleteImage
