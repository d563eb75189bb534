import OmapBootUtils.CompleteImage
import OmapBootUtils.PaddedPieces

/-!
The image gpsign writes with -4. Behind the configuration header it is the image
written without -4, with a pad after every 2048 bytes. The pads do not count the
header, so the pages of the whole file are right only without one.
-/
namespace OmapBootUtils.PagedImage

open ByteMemory ScriptedRun ImageCalls ConfigHandler ChSections ChHeader GpsignImage CopyLoops
  CompleteImage PaddedPieces

def pagePad : List UInt8 := List.replicate pagePadSize 0xFF

/-- The size, the load address and the input, as they are written without -4. -/
def plainPart (loadaddr : UInt32) (input : List UInt8) : List UInt8 :=
  leBytes 4 input.length ++ u32Bytes loadaddr ++ input

theorem plainPart_drop (loadaddr : UInt32) (input : List UInt8) (k : ℕ) :
    (plainPart loadaddr input).drop (8 + k) = input.drop k := by
  have hlen : (leBytes 4 input.length ++ u32Bytes loadaddr).length = 8 := by simp
  rw [plainPart, ← List.drop_drop, ← hlen, List.drop_left]

theorem inputPieces_plain (opts : GpsignOptions) (h : opts.pageSize4k = false) (i : ℕ)
    (input : List UInt8) : (inputPieces opts i input).flatten = input := by
  induction input generalizing i with
  | nil => rfl
  | cons b input ih =>
    simp only [inputPieces, padBefore, h, Bool.false_and, Bool.false_eq_true, if_false,
      List.nil_append, List.flatten_cons, ih (i + 1), List.singleton_append]

/-- The loop of -4 puts a pad before each multiple of 2048, counted from the size word on. -/
theorem inputPieces_paged (opts : GpsignOptions) (h : opts.pageSize4k = true) (i : ℕ)
    (input : List UInt8) :
    (inputPieces opts i input).flatten = insertPads pagePadSize pagePad (i + 8) input := by
  induction input generalizing i with
  | nil => rfl
  | cons b input ih =>
    have hdue : padBefore opts i = true ↔ (i + 8) % pagePadSize = 0 ∧ i + 8 ≠ 0 := by
      have hsize : pagePadSize = 2048 := rfl
      simp only [padBefore, h, Bool.true_and, Bool.and_eq_true, decide_eq_true_eq, hsize]
      omega
    rw [inputPieces, insertPads, List.flatten_append, List.flatten_cons, ih (i + 1),
      Nat.add_right_comm i 1 8]
    by_cases hpad : padBefore opts i = true
    · rw [if_pos hpad, if_pos (hdue.mp hpad)]
      simp [pagePad]
    · rw [if_neg hpad, if_neg (fun h => hpad (hdue.mpr h))]
      simp

/-- The file with or without -4, behind the header. -/
theorem gpsignPieces_flatten (opts : GpsignOptions) (objs : Objects GpsignObject)
    (chBuffer : Memory) (input : List UInt8) :
    (gpsignPieces opts objs chBuffer input).flatten =
      (headerPieces (platformOf objs) chBuffer).flatten ++
        if opts.pageSize4k then
          insertPads pagePadSize pagePad 0 (plainPart (loadaddrOf opts objs) input)
        else plainPart (loadaddrOf opts objs) input := by
  have hlen : (leBytes 4 input.length ++ u32Bytes (loadaddrOf opts objs)).length = 8 := by simp
  rw [gpsignPieces, List.flatten_append, List.flatten_cons, List.flatten_cons,
    ← List.append_assoc (leBytes 4 input.length)]
  congr 1
  cases hpaged : opts.pageSize4k with
  | false =>
    rw [inputPieces_plain opts hpaged 0 input]
    rfl
  | true =>
    rw [inputPieces_paged opts hpaged 0 input, if_pos rfl, plainPart, insertPads_append,
      insertPads_within _ _ 0 _ (by rw [hlen]; decide), hlen]

/-! ### The header -/

/-- The length of the configuration header, if there is one. -/
def headerSize (objs : Objects GpsignObject) : ℕ :=
  if (settingsSection (platformOf objs)).valid = 0 then 0 else chBufferSize

/-- What the static buffer held before does not matter. -/
theorem headerPieces_congr (p : Platform) (chBuffer chBuffer' : Memory) :
    headerPieces p chBuffer = headerPieces p chBuffer' := by
  by_cases hvalid : (settingsSection p).valid = 0
  · rw [headerPieces_of_invalid p _ hvalid, headerPieces_of_invalid p _ hvalid]
  · obtain ⟨ch, hch, hheader⟩ := fillupCh_header p chBuffer hvalid
    obtain ⟨ch', hch', hheader'⟩ := fillupCh_header p chBuffer' hvalid
    have hbytes : readBytes ch 0 chBufferSize = readBytes ch' 0 chBufferSize := by
      apply readBytes_congr
      intro i hi
      exact hheader.bytes_eq hheader' (0 + i) (by omega)
    simp only [headerPieces, hch, hch', hbytes]

theorem headerPieces_length (objs : Objects GpsignObject) (chBuffer : Memory) :
    (headerPieces (platformOf objs) chBuffer).flatten.length = headerSize objs := by
  rw [headerSize]
  split
  · next hvalid => rw [headerPieces_of_invalid _ _ hvalid, List.flatten_nil, List.length_nil]
  · next hvalid =>
    obtain ⟨ch, _, hpieces⟩ := headerPieces_of_valid _ chBuffer hvalid
    rw [hpieces, List.flatten_singleton, readBytes_length]

/-! ### Whole runs -/

/-- Both files are opened, and the calls copy the input to its end. -/
structure Copied (opts : GpsignOptions) (objs : Objects GpsignObject) (env : GpsignEnv)
    (input : List UInt8) : Prop where
  inputOpened : env.inputOpened = true
  outputOpened : env.outputOpened = true
  calls : GpsignCalls env input
  copies : GpsignCopies opts objs env input

section Run
variable (opts : GpsignOptions) (config : ConfigFile) (m objs : Objects GpsignObject)
  (env : GpsignEnv) (input : List UInt8)

/-- main comes to its end exactly if the counter of its loop can count the input. -/
theorem gpsignMain_done_iff (hconfig : gpsignSettings m config = some objs)
    (h : Copied opts objs env input) :
    (gpsignMain opts config m env).status = .done 0 ↔ input.length < 2 ^ 31 := by
  rw [gpsignMain_eq opts config m objs env hconfig, ← h.copies.size]
  constructor
  · intro hdone
    by_contra hlarge
    exact gpsignBuild_overflow opts objs env h.inputOpened h.outputOpened (Nat.not_lt.mp hlarge)
      hdone
  · intro hsmall
    exact (gpsignBuild_complete_iff opts objs env input h.inputOpened h.outputOpened hsmall
      h.calls).1

/-- The file main writes: the header, and what is behind it. -/
theorem gpsignMain_stored (chBuffer : Memory) (hconfig : gpsignSettings m config = some objs)
    (h : Copied opts objs env input) (hsmall : input.length < 2 ^ 31) :
    stored (gpsignMain opts config m env).log =
      (headerPieces (platformOf objs) chBuffer).flatten ++
        if opts.pageSize4k then
          insertPads pagePadSize pagePad 0 (plainPart (loadaddrOf opts objs) input)
        else plainPart (loadaddrOf opts objs) input := by
  rw [← h.copies.size] at hsmall
  obtain ⟨_, hcomplete⟩ := gpsignBuild_complete_iff opts objs env input h.inputOpened
    h.outputOpened hsmall h.calls
  rw [gpsignMain_eq opts config m objs env hconfig, (hcomplete.mpr h.copies).contents,
    gpsignPieces_flatten, headerPieces_congr _ env.chBuffer chBuffer]

/-- The file behind the configuration header. -/
def imagePart (log : List ImageCall) : List UInt8 := (stored log).drop (headerSize objs)

theorem imagePart_gpsignMain (hconfig : gpsignSettings m config = some objs)
    (h : Copied opts objs env input) (hsmall : input.length < 2 ^ 31) :
    imagePart objs (gpsignMain opts config m env).log =
      if opts.pageSize4k then
        insertPads pagePadSize pagePad 0 (plainPart (loadaddrOf opts objs) input)
      else plainPart (loadaddrOf opts objs) input := by
  have hlen := headerPieces_length objs env.chBuffer
  rw [imagePart, gpsignMain_stored opts config m objs env input env.chBuffer hconfig h hsmall,
    ← hlen, List.drop_left]

end Run

/-- The environment in which every call succeeds. -/
def copyingEnv (input : List UInt8) : GpsignEnv where
  chBuffer := fun _ => 0
  ch := 0
  inputOpened := true
  inputSize := input.length
  outputOpened := true
  headerAccepted := chBufferSize
  sizeAccepted := 4
  loadaddrAccepted := 4
  passes := input.map fun b => ⟨[b], pagePadSize, 1⟩

theorem copyingEnv_copied (opts : GpsignOptions) (objs : Objects GpsignObject)
    (input : List UInt8) : Copied opts objs (copyingEnv input) input := by
  refine ⟨rfl, rfl, ⟨?_, ?_⟩, ⟨rfl, ?_, fun _ => le_refl _, le_refl 4, le_refl 4⟩⟩
  · exact (List.length_map ..).ge
  · have hall : (copyingEnv input).passes.take (copyingEnv input).inputSize =
        (copyingEnv input).passes := List.take_of_length_le (List.length_map ..).le
    rw [hall, copyingEnv, List.flatMap_map]
    simp
  · intro k pass hpass _
    rw [copyingEnv, List.getElem?_map] at hpass
    obtain ⟨b, _, rfl⟩ := Option.map_eq_some_iff.mp hpass
    exact ⟨by simp, le_refl 1, fun _ => le_refl _⟩

section Modes
variable (config : ConfigFile) (m objs : Objects GpsignObject) (cmdLoadaddr : UInt32)
  (input : List UInt8) (plain paged : GpsignEnv)

/-- Behind the header, the file of -4 has a pad between the pieces of the plain one and
is the plain one without them; the size is that of the input in both. -/
theorem paged_part_refines_plain (hconfig : gpsignSettings m config = some objs)
    (hsmall : input.length < 2 ^ 31)
    (hplain : Copied ⟨cmdLoadaddr, false⟩ objs plain input)
    (hpaged : Copied ⟨cmdLoadaddr, true⟩ objs paged input) :
    imagePart objs (gpsignMain ⟨cmdLoadaddr, false⟩ config m plain).log =
        plainPart (loadaddrOf ⟨cmdLoadaddr, false⟩ objs) input ∧
    (∃ pieces,
      Pieces pagePadSize (imagePart objs (gpsignMain ⟨cmdLoadaddr, false⟩ config m plain).log)
        pieces ∧
      imagePart objs (gpsignMain ⟨cmdLoadaddr, true⟩ config m paged).log =
        pagePad.intercalate pieces) ∧
    keepLow pagePadSize 0 (imagePart objs (gpsignMain ⟨cmdLoadaddr, true⟩ config m paged).log) =
      imagePart objs (gpsignMain ⟨cmdLoadaddr, false⟩ config m plain).log ∧
    (imagePart objs (gpsignMain ⟨cmdLoadaddr, false⟩ config m plain).log).take 4 =
      leBytes 4 input.length ∧
    (imagePart objs (gpsignMain ⟨cmdLoadaddr, true⟩ config m paged).log).take 4 =
      leBytes 4 input.length := by
  have hsize : 0 < pagePadSize := by decide
  have hpad : pagePad.length = pagePadSize := List.length_replicate
  have hpart := imagePart_gpsignMain _ config m objs plain input hconfig hplain hsmall
  have hpart' := imagePart_gpsignMain _ config m objs paged input hconfig hpaged hsmall
  have hloadaddr : loadaddrOf ⟨cmdLoadaddr, true⟩ objs = loadaddrOf ⟨cmdLoadaddr, false⟩ objs := rfl
  simp only [if_true, Bool.false_eq_true, if_false, hloadaddr] at hpart hpart'
  generalize hl : plainPart (loadaddrOf ⟨cmdLoadaddr, false⟩ objs) input = l at hpart hpart'
  have hword : l.take 4 = leBytes 4 input.length := by
    rw [← hl, plainPart, List.append_assoc, List.take_left' (leBytes_length 4 _)]
  have hlen : 4 ≤ l.length := by
    rw [← hl, plainPart, List.append_assoc, List.length_append, leBytes_length]
    omega
  have hword' : (insertPads pagePadSize pagePad 0 l).take 4 = l.take 4 := by
    have hfour : 4 ≤ pagePadSize := by decide
    rw [insertPads_split _ _ hsize, List.take_append_of_le_length
      (by rw [List.length_take]; omega), List.take_take, Nat.min_eq_left hfour]
  obtain ⟨pieces, hpieces⟩ := exists_pieces pagePadSize hsize l
  rw [hpart, hpart']
  refine ⟨rfl, ⟨pieces, hpieces, ?_⟩, ?_, hword, hword'.trans hword⟩
  · exact insertPads_intercalate _ _ l pieces hsize hpieces
  · exact keepLow_insertPads _ pagePad hsize hpad l

/-- Each page of the file is 2048 bytes of the plain file and a pad, and the last has no
pad; so the blocks of the plain file start at every second block. -/
structure PagePlacement (plainFile pagedFile : List UInt8) : Prop where
  pages : ∃ pieces, Pieces pagePadSize plainFile pieces ∧ pagedFile = pagePad.intercalate pieces
  blocks : ∀ k, (pagedFile.drop (2 * pagePadSize * k)).take pagePadSize =
    (plainFile.drop (pagePadSize * k)).take pagePadSize

theorem pagePlacement_iff (plainFile pagedFile : List UInt8) :
    PagePlacement plainFile pagedFile ↔
      pagedFile = insertPads pagePadSize pagePad 0 plainFile := by
  have hsize : 0 < pagePadSize := by decide
  constructor
  · intro h
    obtain ⟨pieces, hpieces, hfile⟩ := h.pages
    rw [hfile, insertPads_intercalate _ _ plainFile pieces hsize hpieces]
  · intro hfile
    obtain ⟨pieces, hpieces⟩ := exists_pieces pagePadSize hsize plainFile
    constructor
    · exact ⟨pieces, hpieces, by rw [hfile, insertPads_intercalate _ _ _ pieces hsize hpieces]⟩
    · intro k
      rw [hfile]
      exact piece_at _ pagePad hsize List.length_replicate plainFile k

theorem pagePlacement_files_iff (hconfig : gpsignSettings m config = some objs)
    (hsmall : input.length < 2 ^ 31)
    (hplain : Copied ⟨cmdLoadaddr, false⟩ objs plain input)
    (hpaged : Copied ⟨cmdLoadaddr, true⟩ objs paged input) :
    PagePlacement (stored (gpsignMain ⟨cmdLoadaddr, false⟩ config m plain).log)
        (stored (gpsignMain ⟨cmdLoadaddr, true⟩ config m paged).log) ↔
      (settingsSection (platformOf objs)).valid = 0 ∨
        PadLike pagePadSize chBufferSize 0xFF (input.drop 1528) := by
  have hsize : 0 < pagePadSize := by decide
  have hfile := gpsignMain_stored _ config m objs plain input (fun _ => 0) hconfig hplain
    hsmall
  have hfile' := gpsignMain_stored _ config m objs paged input (fun _ => 0) hconfig hpaged
    hsmall
  have hlen := headerPieces_length objs fun _ => 0
  have hloadaddr : loadaddrOf ⟨cmdLoadaddr, true⟩ objs = loadaddrOf ⟨cmdLoadaddr, false⟩ objs := rfl
  simp only [if_true, Bool.false_eq_true, if_false, hloadaddr] at hfile hfile'
  rw [pagePlacement_iff, hfile, hfile']
  by_cases hvalid : (settingsSection (platformOf objs)).valid = 0
  · rw [headerPieces_of_invalid _ _ hvalid]
    exact iff_of_true rfl (Or.inl hvalid)
  · rw [headerSize, if_neg hvalid] at hlen
    simp only [hvalid, false_or]
    have hdrop := plainPart_drop (loadaddrOf ⟨cmdLoadaddr, false⟩ objs) input 1528
    rw [← hdrop]
    exact insertPads_behind_iff _ _ 0xFF hsize (by decide) _ _ hlen

/-- The pages of a file main has written to its end are right exactly if there is no
header, or the input has the letters of a pad in the 512 bytes before each pad. -/
theorem page_placement_iff (hconfig : gpsignSettings m config = some objs)
    (hplain : Copied ⟨cmdLoadaddr, false⟩ objs plain input)
    (hpaged : Copied ⟨cmdLoadaddr, true⟩ objs paged input)
    (hdone : (gpsignMain ⟨cmdLoadaddr, true⟩ config m paged).status = .done 0) :
    PagePlacement (stored (gpsignMain ⟨cmdLoadaddr, false⟩ config m plain).log)
        (stored (gpsignMain ⟨cmdLoadaddr, true⟩ config m paged).log) ↔
      (settingsSection (platformOf objs)).valid = 0 ∨
        ∀ k, 2048 * k + 1528 < input.length → 2048 * k + 2040 < input.length ∧
          (input.drop (2048 * k + 1528)).take 512 = List.replicate 512 0xFF := by
  have hsmall := (gpsignMain_done_iff _ config m objs paged input hconfig hpaged).mp hdone
  rw [pagePlacement_files_iff config m objs cmdLoadaddr input plain paged hconfig hsmall hplain
    hpaged]
  apply or_congr_right
  simp only [PadLike, pagePadSize, chBufferSize, List.length_drop, List.drop_drop,
    Nat.add_comm 1528]
  constructor
  · intro hpads k hk
    obtain ⟨hlen, htake⟩ := hpads k (by omega)
    exact ⟨by omega, htake⟩
  · intro hpads k hk
    obtain ⟨hlen, htake⟩ := hpads k (by omega)
    exact ⟨by omega, htake⟩

end Modes

/-- An input of three pages without a configuration file. -/
def threePages : List UInt8 := List.replicate 6144 0x41

theorem threePages_small : threePages.length < 2 ^ 31 := by
  rw [threePages, List.length_replicate]
  decide

theorem paged_part_threePages :
    keepLow pagePadSize 0 (imagePart (resetObjects fun _ _ => 0)
        (gpsignMain ⟨0xFFFFFFFF, true⟩ .absent (fun _ _ => 0) (copyingEnv threePages)).log) =
      imagePart (resetObjects fun _ _ => 0)
        (gpsignMain ⟨0xFFFFFFFF, false⟩ .absent (fun _ _ => 0) (copyingEnv threePages)).log :=
  (paged_part_refines_plain .absent (fun _ _ => 0) (resetObjects fun _ _ => 0) 0xFFFFFFFF
    threePages (copyingEnv threePages) (copyingEnv threePages) rfl threePages_small
    (copyingEnv_copied _ _ _) (copyingEnv_copied _ _ _)).2.2.1

theorem page_placement_threePages :
    PagePlacement
      (stored (gpsignMain ⟨0xFFFFFFFF, false⟩ .absent (fun _ _ => 0) (copyingEnv threePages)).log)
      (stored
        (gpsignMain ⟨0xFFFFFFFF, true⟩ .absent (fun _ _ => 0) (copyingEnv threePages)).log) := by
  have hpaged := copyingEnv_copied ⟨0xFFFFFFFF, true⟩ (resetObjects fun _ _ => 0) threePages
  apply (page_placement_iff .absent (fun _ _ => 0) (resetObjects fun _ _ => 0) 0xFFFFFFFF threePages
    (copyingEnv threePages) (copyingEnv threePages) rfl (copyingEnv_copied _ _ _) hpaged
    ((gpsignMain_done_iff _ _ _ _ _ _ rfl hpaged).mpr threePages_small)).mpr
  left
  decide +kernel

/-- A header, and an input that ends in the last quarter of its first page. -/
theorem page_misplaced :
    ¬ ∀ config m objs cmdLoadaddr input plain paged, gpsignSettings m config = some objs →
      Copied ⟨cmdLoadaddr, false⟩ objs plain input →
      Copied ⟨cmdLoadaddr, true⟩ objs paged input →
      (gpsignMain ⟨cmdLoadaddr, true⟩ config m paged).status = .done 0 →
        PagePlacement (stored (gpsignMain ⟨cmdLoadaddr, false⟩ config m plain).log)
          (stored (gpsignMain ⟨cmdLoadaddr, true⟩ config m paged).log) := by
  intro h
  have hsmall : (List.replicate 1529 (0 : UInt8)).length < 2 ^ 31 := by
    rw [List.length_replicate]
    decide
  have hplaced := h (.parsed [("platform_chsettings.valid", [0x31])]) (fun _ _ => 0) _ 0xFFFFFFFF
    (List.replicate 1529 0) (copyingEnv _) (copyingEnv _) rfl (copyingEnv_copied _ _ _)
    (copyingEnv_copied _ _ _)
    ((gpsignMain_done_iff _ _ _ _ _ _ rfl (copyingEnv_copied _ _ _)).mpr hsmall)
  rw [pagePlacement_files_iff _ _ _ _ (List.replicate 1529 0) (copyingEnv _) (copyingEnv _) rfl
    hsmall (copyingEnv_copied _ _ _) (copyingEnv_copied _ _ _)] at hplaced
  rcases hplaced with hvalid | hpads
  · exact absurd hvalid (by decide +kernel)
  · have hone : ((List.replicate 1529 (0 : UInt8)).drop 1528).length = 1 := by
      rw [List.length_drop, List.length_replicate]
    have hlate := (hpads 0 (by rw [hone]; decide)).1
    rw [hone] at hlate
    exact absurd hlate (by decide)

end OmapBootUtils.PagedImage
